import RubyIndex.Proofs.Syntax.Enclosing

/-!
# Names come to an end

The name of a node is computed from the names of the namespaces around it, whose names are computed
in the same way, and from the paths that are written below it.  The computations call each other,
but each call leads upward or downward for good, so that all of them come to an end.

* `Tree.Query`, `Tree.answer`, the computations and what they give;
* `Tree.computed`, one computation, given the answers to those that it calls;
* `Tree.Calls`, which computation calls which;
* `Tree.computed_eq_answer`, no other answers are used, as long as those are right;
* `Tree.wellFounded_calls`, `Tree.eq_answer_iff`, so no other answers fit together.
-/

namespace RubyIndex
namespace Syntax
namespace Tree

variable {t : Tree} {i : Nat}

/-! ## Computations -/

/-- A computation on the way to the name of a node. -/
inductive Query
  | above (i : Nat)
  | path (i : Nat)
  | rooted (i : Nat)
  | nesting (i : Nat)
  | lexicalPrefix (i : Nat)
  | namespaceAt (i : Nat)
  | qualifiedName (i : Nat)

/-- What a computation gives. -/
@[reducible] def Query.Answer : Query → Type
  | above _ => List Nat
  | path _ => Option String
  | rooted _ => Bool
  | nesting _ => List String
  | lexicalPrefix _ => String
  | namespaceAt _ => String
  | qualifiedName _ => Option String

/-- Answers to all queries. -/
abbrev Answers :=
  (q : Query) → q.Answer

/-- What the computations on a tree give. -/
def answer (t : Tree) : Answers
  | .above i => t.ancestors i
  | .path i => t.path? i
  | .rooted i => t.rooted i
  | .nesting i => t.moduleNesting i
  | .lexicalPrefix i => t.lexicalPrefix i
  | .namespaceAt i => t.namespaceAt i
  | .qualifiedName i => t.qualifiedName? i

/-! ## One computation -/

/-- The constant in front of the last name of a path. -/
def pathScope? (t : Tree) (i : Nat) : Option Nat :=
  (t.childNode? i 0).filter fun c => t.kind c = .const

/-- The classes and modules that a node stands in, given the nodes above it. -/
def scopesAmong (t : Tree) (i : Nat) (above : List Nat) : List Nat :=
  ((i :: above).zip above).filterMap fun (below, scope) =>
    if (t.kind scope).isNamespace && !t.inHeader scope below then some scope else none

/-- Whether a method definition declares a singleton method, given the nodes above it. -/
def singletonAmong (t : Tree) (i : Nat) (above : List Nat) : Bool :=
  match t.kind i with
  | .singletonMethod => true
  | .method =>
      (above.find? (t.accepts scopeKinds)).elim false fun scope => t.kind scope = .singletonClass
  | _ => false

/-- The name of a constant, given its path. -/
def constantNamed (path : Option String) (rooted : Bool) (scope : String) : Option String :=
  path.map fun path => if rooted then path else Name.join scope path

/-- The owner of a method, given the answers to what is asked for it. -/
def ownerGiven (t : Tree) (answers : Answers) (i : Nat) : String :=
  let definee := if t.kind i = .singletonMethod then t.pathScope? i else none
  let constant? := definee.bind fun d =>
    constantNamed (answers (.path d)) (answers (.rooted d)) (answers (.lexicalPrefix i))
  constant?.getD (answers (.namespaceAt i))

/-- One computation, given the answers to what it calls. -/
def computed (t : Tree) (answers : Answers) : Answers
  | .above i => (t.parent? i).elim [] fun p => p :: answers (.above p)
  | .path i =>
      if t.kind i = .const ∨ t.kind i = .constAssign then
        (t.symbol? i 1).bind fun name =>
          (t.pathScope? i).elim (some name) fun c =>
            (answers (.path c)).map fun path => path ++ "::" ++ name
      else (t.constantPath? i).bind fun c => answers (.path c)
  | .rooted i =>
      if t.kind i = .const ∨ t.kind i = .constAssign then
        (t.childNode? i 0).elim false fun c =>
          t.kind c = .topScope || t.kind c = .const && answers (.rooted c)
      else (t.constantPath? i).elim false fun c => answers (.rooted c)
  | .nesting i =>
      (t.scopesAmong i (answers (.above i))).filterMap fun s => answers (.qualifiedName s)
  | .lexicalPrefix i =>
      ((t.scopesAmong i (answers (.above i))).findSome? fun s => answers (.qualifiedName s)).getD ""
  | .namespaceAt i =>
      if answers (.lexicalPrefix i) = "" then Name.topLevel else answers (.lexicalPrefix i)
  | .qualifiedName i =>
      if t.kind i ∈ [Kind.classDecl, .moduleDecl, .constAssign] then
        constantNamed (answers (.path i)) (answers (.rooted i)) (answers (.lexicalPrefix i))
      else if (t.kind i).isMethodDefinition then
        (t.name? i).map fun name =>
          (MethodKind.ofSingleton (t.singletonAmong i (answers (.above i)))).qualify
            (t.ownerGiven answers i) name
      else none

/-! ## Calls -/

/-- `t.Calls q q'` when the computation `q'` on a tree may call `q`. -/
inductive Calls (t : Tree) : Query → Query → Prop
  | parent {i p : Nat} : t.parent? i = some p → Calls t (.above p) (.above i)
  | pathScope {i c : Nat} : t.childNode? i 0 = some c → Calls t (.path c) (.path i)
  | rootedScope {i c : Nat} : t.childNode? i 0 = some c → Calls t (.rooted c) (.rooted i)
  | nestingAbove (i : Nat) : Calls t (.above i) (.nesting i)
  | nestingName {i s : Nat} : s ∈ t.enclosing i → Calls t (.qualifiedName s) (.nesting i)
  | prefixAbove (i : Nat) : Calls t (.above i) (.lexicalPrefix i)
  | prefixName {i s : Nat} : s ∈ t.enclosing i → Calls t (.qualifiedName s) (.lexicalPrefix i)
  | namespacePrefix (i : Nat) : Calls t (.lexicalPrefix i) (.namespaceAt i)
  | namePath (i : Nat) : Calls t (.path i) (.qualifiedName i)
  | nameRooted (i : Nat) : Calls t (.rooted i) (.qualifiedName i)
  | namePrefix (i : Nat) : Calls t (.lexicalPrefix i) (.qualifiedName i)
  | ownerPath {i c : Nat} : t.childNode? i 0 = some c → Calls t (.path c) (.qualifiedName i)
  | ownerRooted {i c : Nat} : t.childNode? i 0 = some c → Calls t (.rooted c) (.qualifiedName i)
  | ownerNamespace (i : Nat) : Calls t (.namespaceAt i) (.qualifiedName i)
  | ownerAbove (i : Nat) : Calls t (.above i) (.qualifiedName i)

/-! ## What is called -/

/-- The answers to all that a computation calls are right. -/
def RightFor (t : Tree) (answers : Answers) (q : Query) : Prop :=
  ∀ q', t.Calls q' q → answers q' = t.answer q'

variable {answers : Answers}

theorem computed_above (h : t.RightFor answers (.above i)) :
    t.computed answers (.above i) = t.ancestors i := by
  cases hparent : t.parent? i with
  | none => simp [computed, hparent, ancestors_of_no_parent hparent]
  | some p =>
      have habove : answers (.above p) = t.ancestors p := h _ (.parent hparent)
      simp [computed, hparent, ancestors_of_parent hparent, habove]

theorem childNode?_of_pathScope? {c : Nat} (h : t.pathScope? i = some c) :
    t.childNode? i 0 = some c :=
  (Option.filter_eq_some_iff.1 h).1

/-- The path of a constant that is written or assigned. -/
theorem path?_of_name (hkind : t.kind i = .const ∨ t.kind i = .constAssign) :
    t.path? i = (t.symbol? i 1).bind fun name =>
      (t.pathScope? i).elim (some name) fun c =>
        (t.path? c).map fun path => path ++ "::" ++ name := by
  unfold pathScope?
  rcases hkind with hkind | hkind
  all_goals
    rw [path?]
    simp only [hkind]
    split
    · rename_i hname
      simp [hname]
    · rename_i scope hname hchild
      by_cases hscope : t.kind scope = .const
      · simp [Option.filter, hname, hchild, hscope]
      · simp [Option.filter, hname, hchild, hscope]
    · rename_i hname hchild
      simp [hname, hchild]

theorem rooted_of_name (hkind : t.kind i = .const ∨ t.kind i = .constAssign) :
    t.rooted i = (t.childNode? i 0).elim false fun c =>
      t.kind c = .topScope || t.kind c = .const && t.rooted c := by
  rcases hkind with hkind | hkind
  all_goals
    conv_lhs => rw [rooted]
    simp only [hkind]
    split
    · rename_i c hchild
      rw [hchild, Option.elim_some]
      cases t.kind c <;> simp
    · rename_i hchild
      rw [hchild, Option.elim_none]

/-- What is neither a constant nor a class or module with a name has no path. -/
theorem path?_of_unnamed (hname : ¬ (t.kind i = .const ∨ t.kind i = .constAssign))
    (hconstant : t.constantPath? i = none) : t.path? i = none ∧ t.rooted i = false := by
  have hchild : (t.kind i).isNamespace = true → t.childNode? i 0 = none := by
    intro hspace
    simpa [constantPath?, hspace] using hconstant
  rw [path?, rooted]
  cases hkind : t.kind i <;> simp [hkind, Kind.isNamespace] at hname hchild ⊢
  all_goals
    constructor
    all_goals
      split
      · rename_i hsome
        cases hchild.symm.trans hsome
      · rfl

theorem computed_path (h : t.RightFor answers (.path i)) :
    t.computed answers (.path i) = t.path? i := by
  have hpath : ∀ {c}, t.childNode? i 0 = some c → answers (.path c) = t.path? c :=
    fun hchild => h _ (.pathScope hchild)
  simp only [computed]
  split
  · rename_i hname
    rw [path?_of_name hname]
    cases hscope : t.pathScope? i with
    | none => rfl
    | some c => simp [hpath (childNode?_of_pathScope? hscope)]
  · rename_i hname
    cases hconstant : t.constantPath? i with
    | none => exact (path?_of_unnamed hname hconstant).1.symm
    | some c =>
        rw [path?_of_constantPath? hconstant]
        exact hpath (childNode?_of_constantPath? hconstant).2

theorem computed_rooted (h : t.RightFor answers (.rooted i)) :
    t.computed answers (.rooted i) = t.rooted i := by
  have hrooted : ∀ {c}, t.childNode? i 0 = some c → answers (.rooted c) = t.rooted c :=
    fun hchild => h _ (.rootedScope hchild)
  simp only [computed]
  split
  · rename_i hname
    rw [rooted_of_name hname]
    cases hchild : t.childNode? i 0 with
    | none => rfl
    | some c => simp [hrooted hchild]
  · rename_i hname
    cases hconstant : t.constantPath? i with
    | none => exact (path?_of_unnamed hname hconstant).2.symm
    | some c =>
        rw [rooted_of_constantPath? hconstant]
        exact hrooted (childNode?_of_constantPath? hconstant).2

theorem isNamespace_of_mem_enclosing {s : Nat} (h : s ∈ t.enclosing i) :
    (t.kind s).isNamespace = true := by
  obtain ⟨⟨below, scope⟩, -, hs⟩ := List.mem_filterMap.1 h
  simp only [Option.ite_none_right_eq_some, Bool.and_eq_true, Option.some.injEq] at hs
  obtain ⟨⟨hkind, -⟩, rfl⟩ := hs
  exact hkind

/-- The names of the namespaces around a node, when they are answered right. -/
theorem filterMap_enclosing
    (h : ∀ s ∈ t.enclosing i, answers (.qualifiedName s) = t.qualifiedName? s) :
    (t.enclosing i).filterMap (fun s => answers (.qualifiedName s)) = t.moduleNesting i := by
  refine List.filterMap_congr ?_
  intro s hs
  rw [h s hs, qualifiedName?_of_isNamespace (isNamespace_of_mem_enclosing hs)]

theorem computed_nesting (h : t.RightFor answers (.nesting i)) :
    t.computed answers (.nesting i) = t.moduleNesting i := by
  have habove : answers (.above i) = t.ancestors i := h _ (.nestingAbove i)
  have hscopes : t.scopesAmong i (t.ancestors i) = t.enclosing i := rfl
  simp only [computed, habove, hscopes]
  exact filterMap_enclosing fun s hs => h _ (.nestingName hs)

theorem computed_lexicalPrefix (h : t.RightFor answers (.lexicalPrefix i)) :
    t.computed answers (.lexicalPrefix i) = t.lexicalPrefix i := by
  have habove : answers (.above i) = t.ancestors i := h _ (.prefixAbove i)
  have hscopes : t.scopesAmong i (t.ancestors i) = t.enclosing i := rfl
  have hnames := filterMap_enclosing fun s hs => h _ (.prefixName hs)
  simp only [computed, habove, hscopes]
  rw [← List.head?_filterMap, hnames, head?_moduleNesting]

theorem computed_namespaceAt (h : t.RightFor answers (.namespaceAt i)) :
    t.computed answers (.namespaceAt i) = t.namespaceAt i := by
  have hlexical : answers (.lexicalPrefix i) = t.lexicalPrefix i := h _ (.namespacePrefix i)
  simp only [computed, hlexical, namespaceAt]

theorem ownerGiven_eq (h : t.RightFor answers (.qualifiedName i)) :
    t.ownerGiven answers i = t.methodOwner i := by
  have hlexical : answers (.lexicalPrefix i) = t.lexicalPrefix i := h _ (.namePrefix i)
  have hnamespace : answers (.namespaceAt i) = t.namespaceAt i := h _ (.ownerNamespace i)
  unfold ownerGiven methodOwner
  rw [hlexical, hnamespace]
  by_cases hkind : t.kind i = .singletonMethod
  · cases hscope : t.pathScope? i with
    | none =>
        simp only [pathScope?] at hscope
        simp [hkind, hscope]
    | some c =>
        have hchild := childNode?_of_pathScope? hscope
        have hpath : answers (.path c) = t.path? c := h _ (.ownerPath hchild)
        have hrooted : answers (.rooted c) = t.rooted c := h _ (.ownerRooted hchild)
        simp only [pathScope?] at hscope
        cases hp : t.path? c with
        | none => simp [hkind, hscope, hpath, hp, constantNamed]
        | some path => simp [hkind, hscope, hpath, hrooted, hp, constantNamed]
  · simp [hkind]

theorem singletonAmong_ancestors (t : Tree) (i : Nat) :
    t.singletonAmong i (t.ancestors i) = t.isSingletonMethod i :=
  rfl

/-- What declares no constant is named as a method, if it is one. -/
theorem qualifiedName?_of_no_constant
    (h : t.kind i ∉ [Kind.classDecl, .moduleDecl, .constAssign]) :
    t.qualifiedName? i =
      if (t.kind i).isMethodDefinition then
        (t.name? i).map fun name => (t.methodKind i).qualify (t.methodOwner i) name
      else none := by
  unfold qualifiedName?
  cases hkind : t.kind i <;> simp [hkind, Kind.isMethodDefinition] at h ⊢

theorem computed_qualifiedName (h : t.RightFor answers (.qualifiedName i)) :
    t.computed answers (.qualifiedName i) = t.qualifiedName? i := by
  have hlexical : answers (.lexicalPrefix i) = t.lexicalPrefix i := h _ (.namePrefix i)
  simp only [computed]
  split
  · rename_i hkind
    have hpath : answers (.path i) = t.path? i := h _ (.namePath i)
    have hrooted : answers (.rooted i) = t.rooted i := h _ (.nameRooted i)
    rw [qualifiedName?_eq_constantName? hkind, constantName?_eq, hpath, hrooted, hlexical]
    rfl
  · rename_i hkind
    have habove : answers (.above i) = t.ancestors i := h _ (.ownerAbove i)
    rw [habove, ownerGiven_eq h, singletonAmong_ancestors, qualifiedName?_of_no_constant hkind]
    rfl

/-- The computations are those that define the names, and use nothing but the answers to what they
call. -/
theorem computed_eq_answer {q : Query} (h : t.RightFor answers q) :
    t.computed answers q = t.answer q := by
  cases q with
  | above i => exact computed_above h
  | path i => exact computed_path h
  | rooted i => exact computed_rooted h
  | nesting i => exact computed_nesting h
  | lexicalPrefix i => exact computed_lexicalPrefix h
  | namespaceAt i => exact computed_namespaceAt h
  | qualifiedName i => exact computed_qualifiedName h

/-! ## The end of all calls -/

/-- Names are computed from the root down, after that everything about one node; walks come last. -/
def Query.rank (size : Nat) : Query → Nat × Nat
  | above i => (0, size - i)
  | path i => (0, i)
  | rooted i => (0, i)
  | nesting i => (1, 3 * (size - i))
  | lexicalPrefix i => (1, 3 * (size - i))
  | namespaceAt i => (1, 3 * (size - i) + 1)
  | qualifiedName i => (1, 3 * (size - i) + 2)

theorem rank_lt_of_calls {q q' : Query} (h : t.Calls q q') :
    Prod.Lex (· < ·) (· < ·) (q.rank t.size) (q'.rank t.size) := by
  cases h with
  | parent hparent =>
      have hgt := parent?_gt hparent
      exact .right 0 (by omega)
  | pathScope hchild => exact .right 0 (childNode?_lt hchild)
  | rootedScope hchild => exact .right 0 (childNode?_lt hchild)
  | nestingName hmem =>
      -- a namespace around a node comes after it, and is named before
      have hgt := enclosing_gt hmem
      exact .right 1 (by omega)
  | prefixName hmem =>
      have hgt := enclosing_gt hmem
      exact .right 1 (by omega)
  | namespacePrefix i => exact .right 1 (by omega)
  | namePrefix i => exact .right 1 (by omega)
  | ownerNamespace i => exact .right 1 (by omega)
  | _ => exact .left _ _ Nat.zero_lt_one

/-- No computation of a name goes on forever. -/
theorem wellFounded_calls (t : Tree) : WellFounded t.Calls := by
  refine Subrelation.wf (fun h => rank_lt_of_calls h) (InvImage.wf (Query.rank t.size) ?_)
  exact (Prod.lex Nat.lt_wfRel Nat.lt_wfRel).wf

/-- Only the answers that are defined fit together. -/
theorem eq_answer_iff (t : Tree) (answers : Answers) :
    answers = t.answer ↔ ∀ q, answers q = t.computed answers q := by
  constructor
  · rintro rfl q
    exact (computed_eq_answer fun _ _ => rfl).symm
  · intro h
    funext q
    -- all that a computation calls is right before it is
    induction q using (wellFounded_calls t).induction with
    | _ q ih => rw [h q, computed_eq_answer ih]

end Tree
end Syntax
end RubyIndex
