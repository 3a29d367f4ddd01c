import RubyIndex.Proofs.Syntax.Calls
import RubyIndex.Proofs.Syntax.Layout

/-!
# Nesting from above

The namespaces around a node are found on the way upward, and each of them is named by those around
it in turn.  They can as well be handed down from the root, where a class or module adds its name
for what stands inside of it.

* `Tree.StandsInside`, a child that is not in the header of a class or module;
* `Tree.nameIn?`, `Tree.nestingIn`, names and nesting given the nesting from above;
* `Tree.handedDown`, the nesting of all nodes on one walk from the root;
* `Tree.handedDown_moduleNesting`, both ways agree;
* `Tree.moduleNesting_agrees`, the rules for names and nesting together.
-/

namespace RubyIndex
namespace Syntax
namespace Tree

/-! ## The way down -/

/-- Whether a child of a class or module stands inside of it: it is neither its name nor, for a
class, its superclass. -/
def StandsInside (t : Tree) (p i : Nat) : Prop :=
  (t.kind p = .classDecl ∧ t.child? p 0 ≠ some (.node i) ∧ t.child? p 1 ≠ some (.node i)) ∨
    (t.kind p = .moduleDecl ∧ t.child? p 0 ≠ some (.node i))

instance (t : Tree) (p i : Nat) : Decidable (t.StandsInside p i) :=
  inferInstanceAs (Decidable (_ ∨ _))

/-- The name of a declared constant, given the names around it. -/
def nameIn? (t : Tree) (i : Nat) (nesting : List String) : Option String :=
  (t.path? i).map fun path =>
    if t.rooted i then path else Name.join (nesting.head?.getD "") path

/-- The names around a child, given those around its parent. -/
def nestingIn (t : Tree) (p i : Nat) (nesting : List String) : List String :=
  if t.StandsInside p i then (t.nameIn? p nesting).toList ++ nesting else nesting

/-- The nodes at and below a node with the names around each, given those around the node. -/
def handedDown (t : Tree) (nesting : List String) (i : Nat) : List (Nat × List String) :=
  (i, nesting) :: (t.childNodes i).attach.flatMap fun c =>
    t.handedDown (t.nestingIn i c.1 nesting) c.1
termination_by i
decreasing_by exact childNodes_lt c.2

variable {t : Tree} {i p : Nat}

theorem standsInside_iff :
    t.StandsInside p i ↔ ((t.kind p).isNamespace && !t.inHeader p i) = true := by
  cases hkind : t.kind p <;> simp [StandsInside, inHeader, hkind, Kind.isNamespace]

theorem handedDown_eq (t : Tree) (nesting : List String) (i : Nat) :
    t.handedDown nesting i =
      (i, nesting) :: (t.childNodes i).flatMap fun c =>
        t.handedDown (t.nestingIn i c nesting) c := by
  rw [handedDown]
  congr 1
  simp

/-! ## One step -/

theorem moduleNesting_of_no_parent (h : t.parent? i = none) : t.moduleNesting i = [] := by
  simp [moduleNesting, enclosing, ancestors_of_no_parent h]

/-- The name that a declared constant has by what is above it. -/
theorem constantName?_eq_nameIn? (t : Tree) (i : Nat) :
    t.constantName? i = t.nameIn? i (t.moduleNesting i) := by
  rw [constantName?_eq, ← head?_moduleNesting]
  rfl

theorem moduleNesting_of_parent (h : t.parent? i = some p) :
    t.moduleNesting i = t.nestingIn p i (t.moduleNesting p) := by
  unfold nestingIn
  rw [← constantName?_eq_nameIn?]
  simp only [moduleNesting, enclosing_of_parent h, standsInside_iff]
  split
  · cases hname : t.constantName? p <;> simp [hname]
  · rfl

/-! ## Whole trees -/

/-- What is handed down is what is found on the way upward. -/
theorem handedDown_moduleNesting (ht : t.Linked) (i : Nat) :
    t.handedDown (t.moduleNesting i) i =
      (i :: t.descendants i).map fun j => (j, t.moduleNesting j) := by
  rw [cons_descendants]
  induction i using Nat.strongRecOn with
  | ind i ih =>
      have hbelow : ∀ c ∈ t.childNodes i, t.handedDown (t.nestingIn i c (t.moduleNesting i)) c =
          (t.preorder c).map fun j => (j, t.moduleNesting j) := by
        intro c hc
        have hparent : t.parent? c = some i := ht.mem_childNodes_iff.1 hc
        rw [← moduleNesting_of_parent hparent]
        exact ih c (childNodes_lt hc)
      rw [handedDown_eq, preorder_eq, List.map_cons, List.map_flatMap]
      congr 1
      exact List.flatMap_congr hbelow

/-! ## Names and nesting together -/

/-- The innermost name around a node; the top level has none, and an empty one counts as none. -/
theorem namespaceAt_eq (t : Tree) (i : Nat) :
    t.namespaceAt i =
      match t.moduleNesting i with
      | [] => Name.topLevel
      | name :: _ => if name = "" then Name.topLevel else name := by
  unfold namespaceAt
  rw [← head?_moduleNesting]
  cases t.moduleNesting i <;> rfl

theorem qualifiedName?_of_constant
    (h : t.kind i ∈ [Kind.classDecl, .moduleDecl, .constAssign]) :
    t.qualifiedName? i = t.nameIn? i (t.moduleNesting i) := by
  rw [qualifiedName?_eq_constantName? h, constantName?_eq_nameIn?]

/-- The nesting of a node follows from that of its parent: a class or module that has a name puts it
in front for what stands inside, and everything else stands in the nesting of its parent.  So one
walk from the root gives all nodes their nesting.  The nesting in turn gives a node its namespace
and, if it declares a constant, its name.  The computations of all this come to an end, and what
they give is all that fits together. -/
theorem moduleNesting_agrees (t : Tree) (ht : t.Built) :
    (∀ i, t.parent? i = none → t.moduleNesting i = []) ∧
    (∀ i p name, t.parent? i = some p → t.StandsInside p i → t.qualifiedName? p = some name →
      t.moduleNesting i = name :: t.moduleNesting p) ∧
    (∀ i p, t.parent? i = some p → (t.StandsInside p i → t.qualifiedName? p = none) →
      t.moduleNesting i = t.moduleNesting p) ∧
    (∀ i, t.parent? i = none →
      t.handedDown [] i = (i :: t.descendants i).map fun j => (j, t.moduleNesting j)) ∧
    (∀ i, t.namespaceAt i =
      match t.moduleNesting i with
      | [] => Name.topLevel
      | name :: _ => if name = "" then Name.topLevel else name) ∧
    (∀ i path, t.kind i ∈ [Kind.classDecl, .moduleDecl, .constAssign] → t.path? i = some path →
      t.qualifiedName? i =
        some (if t.rooted i then path
          else Name.join ((t.moduleNesting i).head?.getD "") path)) ∧
    WellFounded t.Calls ∧
    ∀ answers : Answers, answers = t.answer ↔ ∀ q, answers q = t.computed answers q := by
  have hlinked : t.Linked := Forest.linked_of_built ht
  -- only a class or module has something inside
  have hname : ∀ {p i}, t.StandsInside p i →
      t.qualifiedName? p = t.nameIn? p (t.moduleNesting p) := by
    rintro p i (⟨hkind, -⟩ | ⟨hkind, -⟩)
    · exact qualifiedName?_of_constant (by simp [hkind])
    · exact qualifiedName?_of_constant (by simp [hkind])
  refine ⟨fun i => moduleNesting_of_no_parent, ?_, ?_, ?_, namespaceAt_eq t, ?_,
    wellFounded_calls t, eq_answer_iff t⟩
  · intro i p name hparent hinside hp
    rw [moduleNesting_of_parent hparent, nestingIn, if_pos hinside, ← hname hinside, hp]
    rfl
  · intro i p hparent houtside
    rw [moduleNesting_of_parent hparent, nestingIn]
    split
    · rename_i hinside
      rw [← hname hinside, houtside hinside]
      rfl
    · rfl
  · intro i hparent
    have hroot := handedDown_moduleNesting hlinked i
    rwa [moduleNesting_of_no_parent hparent] at hroot
  · intro i path hkind hpath
    rw [qualifiedName?_of_constant hkind, nameIn?, hpath]
    rfl

/-- A module with a class of a path of two names, a superclass and a constant in its body. -/
def scopedConstant : Term :=
  let constant (name : String) : Term :=
    ⟨.const, [.leaf .nil, .leaf (.symbol name)], none, none⟩
  let path : Term := ⟨.const, [.node (constant "B"), .leaf (.symbol "C")], none, none⟩
  let assigned : Term := ⟨.constAssign, [.leaf .nil, .leaf (.symbol "X"), .leaf .nil], none, none⟩
  let derived : Term :=
    ⟨.classDecl, [.node path, .node (constant "D"), .node assigned], none, none⟩
  ⟨.moduleDecl, [.node (constant "A"), .node derived], none, none⟩

/-- The superclass stands in the module, the assigned constant in the class too. -/
theorem scopedConstant_moduleNesting :
    let t := scopedConstant.toTree
    t.moduleNesting 3 = ["A"] ∧ t.moduleNesting 4 = ["A::B::C", "A"] ∧
      t.namespaceAt 4 = "A::B::C" ∧ t.qualifiedName? 4 = some "A::B::C::X" ∧
      (4, ["A::B::C", "A"]) ∈ t.handedDown [] t.root := by
  intro t
  obtain ⟨hroot, hinside, houtside, hdown, hnamespace, hname, -⟩ :=
    moduleNesting_agrees t scopedConstant.built_toTree
  have hmodule : t.moduleNesting 6 = [] := hroot 6 (by decide +kernel)
  have hmoduleName : t.qualifiedName? 6 = some "A" := by
    rw [hname 6 "A" (by decide +kernel) (by decide +kernel), hmodule]
    decide +kernel
  have hclass : t.moduleNesting 5 = ["A"] := by
    rw [hinside 5 6 "A" (by decide +kernel) (by decide +kernel) hmoduleName, hmodule]
  have hclassName : t.qualifiedName? 5 = some "A::B::C" := by
    rw [hname 5 "B::C" (by decide +kernel) (by decide +kernel), hclass]
    decide +kernel
  have hsuperclass : t.moduleNesting 3 = ["A"] := by
    rw [houtside 3 5 (by decide +kernel) fun hin => absurd hin (by decide +kernel), hclass]
  have hassigned : t.moduleNesting 4 = ["A::B::C", "A"] := by
    rw [hinside 4 5 _ (by decide +kernel) (by decide +kernel) hclassName, hclass]
  refine ⟨hsuperclass, hassigned, ?_, ?_, ?_⟩
  · rw [hnamespace 4, hassigned]
    decide
  · rw [hname 4 "X" (by decide +kernel) (by decide +kernel), hassigned]
    decide +kernel
  · rw [hdown t.root (by decide +kernel), List.mem_map]
    exact ⟨4, by decide +kernel, by rw [hassigned]⟩

end Tree
end Syntax
end RubyIndex
