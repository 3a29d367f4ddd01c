import RubyIndex.Proofs.Lowering.Reading
import RubyIndex.Proofs.Syntax.Nearest
import RubyIndex.Proofs.Typing.Termination

/-!
# The assignment that a variable is typed from

A variable has the types of the value that was assigned to it last.  The assignments that count are
those in the same method that end before the variable begins, and of these the last in pre-order is
chosen.  Two things follow that one would not ask for.  A class body in the method has variables of
its own, and still its assignments count.  And the last assignment in pre-order is the last one to
begin: one that stands in the value of another is chosen although the other ends later.

* `Candidate`, an assignment that counts, and `TypedFrom`, the one that is chosen;
* `chosenAssignment_scope_iff`, when the chosen assignment is in the scope of the variable;
* `EndsAfter`, `Holds`, how two assignments stand to each other;
* `chosenAssignment_latest_iff`, when the chosen assignment is the last one to end.
-/

namespace RubyIndex

/-- Spans that are arranged nest. -/
theorem Concrete.Node.WellSpanned.spansNest {s : Concrete.Source} {root : Concrete.Node}
    (h : root.WellSpanned s) : root.SpansNest s := by
  intro n hn
  obtain ⟨hstart, hstop, harranged⟩ := h n hn
  exact ⟨hstart, hstop, harranged.lo_le_hi, harranged.inside, harranged.ordered⟩

/-- The root of the tree of a term is of the kind of the term. -/
theorem Syntax.Term.kind_toTree_root (t : Syntax.Term) : t.toTree.kind t.toTree.root = t.kind := by
  obtain ⟨kind, children, range, documentedOn⟩ := t
  let p := placeAll .empty children
  have hsize : (p.forest.add kind p.children range p.children_lt).size = p.forest.size + 1 :=
    Forest.size_add _ _ _ _ _
  show (p.forest.add kind p.children range p.children_lt).kind
    ((p.forest.add kind p.children range p.children_lt).size - 1) = kind
  rw [hsize, Nat.add_sub_cancel, Forest.kind_add, if_pos rfl]

namespace Syntax.Tree

variable {t : Tree} {i j m r : Nat}

/-- The walk from a node is part of every walk that comes to the node. -/
theorem preorder_sublist (h : m ∈ t.preorder r) : (t.preorder m).Sublist (t.preorder r) := by
  obtain ⟨before, rest, hsplit⟩ := List.append_of_mem h
  have hrest := (descendants_of_preorder_eq hsplit).sublist
  rw [hsplit, ← cons_descendants]
  exact (hrest.cons_cons m).trans (List.sublist_append_right before _)

end Syntax.Tree

namespace Typing

open Concrete (Source)
open Syntax (Kind Tree)

variable {t : Tree} {i a c : Nat} {name : String}

/-! ## Assignments that count -/

/-- An assignment to a name, in the method of a variable, that ends before the variable begins. -/
structure Candidate (t : Tree) (i : Nat) (name : String) (c : Nat) : Prop where
  kind_eq : t.kind c = .localAssign
  name_eq : t.name? c = some name
  ends : ∃ o r, t.range? c = some o ∧ t.range? i = some r ∧ o.stop ≤ r.start
  method_eq : t.enclosingMethod? c = t.enclosingMethod? i

/-- A local variable that is no parameter of the method around it, and the assignment that its types
are taken from. -/
structure TypedFrom (t : Tree) (i : Nat) (name : String) (a : Nat) : Prop where
  kind_eq : t.kind i = .localVar
  name_eq : t.name? i = some name
  no_parameter : declaringMethod? t i name = none
  chosen : reachingAssignment? t i name = some a

/-- The node that assignments to a variable are looked for below. -/
def scopeRoot (t : Tree) (i : Nat) : Nat :=
  (t.enclosingMethod? i).getD t.root

theorem reaches_iff {r : Range} (hr : t.range? i = some r) :
    (t.kind c = .localAssign ∧ reaches t i name r.start c = true) ↔ Candidate t i name c := by
  simp only [reaches, Bool.and_eq_true, beq_iff_eq]
  constructor
  · rintro ⟨hkind, ⟨hname, hends⟩, hmethod⟩
    cases ho : t.range? c with
    | none => simp [ho] at hends
    | some o => exact ⟨hkind, hname, ⟨o, r, ho, hr, by simpa [ho] using hends⟩, hmethod⟩
  · rintro ⟨hkind, hname, ⟨o, r', ho, hr', hends⟩, hmethod⟩
    cases hr.symm.trans hr'
    exact ⟨hkind, ⟨hname, by simpa [ho] using hends⟩, hmethod⟩

/-- The chosen assignment is the last one on the walk that counts. -/
theorem TypedFrom.exists_walk (h : TypedFrom t i name a) :
    ∃ walk : List Nat, walk.Sublist (t.preorder (scopeRoot t i)) ∧ walk.getLast? = some a ∧
      ∀ c, c ∈ walk ↔ c ∈ t.descendants (scopeRoot t i) ∧ Candidate t i name c := by
  obtain ⟨r, hr, hlast⟩ := Option.bind_eq_some_iff.1 h.chosen
  refine ⟨_, ?_, hlast, ?_⟩
  · rw [← Tree.cons_descendants]
    exact ((List.filter_sublist.trans List.filter_sublist).trans (List.sublist_cons_self _ _))
  · intro c
    have haccepts : t.accepts [.localAssign] c = true ↔ t.kind c = .localAssign := by
      simp [Tree.accepts]
    rw [List.mem_filter, Tree.descendantsOf, List.mem_filter, haccepts, and_assoc, reaches_iff hr]
    rfl

theorem TypedFrom.candidate (h : TypedFrom t i name a) : Candidate t i name a := by
  obtain ⟨walk, -, hlast, hmem⟩ := h.exists_walk
  exact ((hmem a).1 (List.mem_of_getLast? hlast)).2

/-- A variable has the types of the value that is assigned to it. -/
theorem TypedFrom.typesOf_eq (h : TypedFrom t i name a) (s : Store) (hwf : WellFounded (Asks t)) :
    typesOf s t i = (t.childNode? a 1).elim [] (typesOf s t) := by
  have horigin : origin? t i = t.childNode? a 1 := by
    simp [origin?, h.kind_eq, h.name_eq, h.no_parameter, h.chosen]
  rw [Typing.typesOf_eq s hwf i, horigin]
  simp [typesGiven, h.kind_eq, h.name_eq, h.no_parameter]

/-! ## Scopes -/

/-- The assignment that a variable is typed from belongs to the method of the variable.  It is in
the scope of the variable exactly when no class, module or singleton class in that method stands
around one of the two only. -/
theorem chosenAssignment_scope_iff (t : Tree) (i a : Nat) (name : String)
    (h : TypedFrom t i name a) :
    t.enclosingMethod? a = t.enclosingMethod? i ∧
      (t.nearest? Tree.scopeKinds a = t.nearest? Tree.scopeKinds i ↔ ∀ f, ¬ t.Parts f a i) :=
  ⟨h.candidate.method_eq, Tree.scope_eq_iff h.candidate.method_eq⟩

/-- A variable that is assigned at the top level and in the body of a class, and then read at the
top level. -/
def reopenedText : Source :=
  "x = nil\nclass A\n  x = 1\nend\nx\n".toList

/-- An assignment to a name of one letter. -/
def letterAssignment (id start stop : Nat) (value : Concrete.Node) : Concrete.Node :=
  ⟨id, .assignment, true, start, stop, none,
    [⟨id + 1, .identifier, true, start, start + 1, some .left, []⟩, value]⟩

def reopened : Concrete.Node :=
  let body : Concrete.Node := ⟨7, .bodyStatement, true, 18, 23, some .body,
    [letterAssignment 8 18 23 ⟨10, .integer, true, 22, 23, some .right, []⟩]⟩
  ⟨0, .other, true, 0, 30, none,
    [letterAssignment 1 0 7 ⟨3, .nilNode, true, 4, 7, some .right, []⟩,
      ⟨5, .classNode, true, 8, 27, none, [⟨6, .constant, true, 14, 15, some .name, []⟩, body]⟩,
      ⟨11, .identifier, true, 28, 29, none, []⟩]⟩

theorem typedFrom_reopened : TypedFrom (Parsed.ofSource reopenedText reopened).tree 6 "x" 4 where
  kind_eq := by decide +kernel
  name_eq := by decide +kernel
  no_parameter := by decide +kernel
  chosen := by decide +kernel

/-- The class stands around the chosen assignment and not around the variable. -/
theorem reopened_chosenAssignment_scope :
    let t := (Parsed.ofSource reopenedText reopened).tree
    t.enclosingMethod? 4 = t.enclosingMethod? 6 ∧ t.Parts 5 4 6 ∧
      t.nearest? Tree.scopeKinds 4 ≠ t.nearest? Tree.scopeKinds 6 := by
  intro t
  obtain ⟨hmethod, hscope⟩ := chosenAssignment_scope_iff t 6 4 "x" typedFrom_reopened
  have hparts : t.Parts 5 4 6 := ⟨by decide +kernel, by decide +kernel, by decide +kernel⟩
  exact ⟨hmethod, hparts, fun hsame => hscope.1 hsame 5 hparts⟩

/-- The assignment that a variable is typed from need not be in the scope of the variable. -/
theorem not_chosenAssignment_scope :
    ¬ ∀ (s : Source) (root : Concrete.Node), root.WellSpanned s →
      ∀ (i a : Nat) (name : String), TypedFrom (Parsed.ofSource s root).tree i name a →
        (Parsed.ofSource s root).tree.nearest? Tree.scopeKinds a =
          (Parsed.ofSource s root).tree.nearest? Tree.scopeKinds i := by
  intro hall
  have hsame := hall reopenedText reopened (by decide +kernel) 6 4 "x" typedFrom_reopened
  exact absurd hsame (by decide +kernel)

/-! ## Whole texts -/

section Parsed

variable {s : Source} {root : Concrete.Node}

/-- In the tree of a text, every assignment is below the root of its scope. -/
theorem mem_descendants_scopeRoot (s : Source) (root : Concrete.Node) {c : Nat} :
    let t := (Parsed.ofSource s root).tree
    t.kind c = .localAssign → c ∈ t.descendants (scopeRoot t c) := by
  rw [Parsed.tree_ofSource]
  intro t hkind
  let term := Lowering.lowerProgram s root
  have hlinked : t.Linked := term.linked_toTree
  rw [Tree.mem_descendants_iff hlinked]
  unfold scopeRoot
  cases hmethod : t.enclosingMethod? c with
  | some m => exact (Tree.mem_ancestors_of_nearest? hmethod).1
  | none =>
      have hlt : c < t.size := by
        by_contra hge
        have hnone : t.node? c = none := Array.getElem?_eq_none (Nat.not_lt.1 hge)
        simp [Tree.kind, hnone] at hkind
      have habove : t.root ∈ c :: t.ancestors c :=
        Tree.root_mem_ancestors (fun i hi => (term.parent?_toTree_eq_none_iff hi).1) hlt
      rcases List.mem_cons.1 habove with hroot | habove
      · -- the root is the sequence of all statements
        have hsequence : t.kind t.root = .sequence := term.kind_toTree_root
        rw [hroot, hkind] at hsequence
        cases hsequence
      · exact habove

/-- The walk along the whole tree comes to the root of every scope. -/
theorem scopeRoot_mem_preorder (s : Source) (root : Concrete.Node) (i : Nat) :
    let t := (Parsed.ofSource s root).tree
    scopeRoot t i ∈ t.preorder t.root := by
  rw [Parsed.tree_ofSource]
  intro t
  let term := Lowering.lowerProgram s root
  have hlinked : t.Linked := term.linked_toTree
  rw [Tree.mem_preorder_iff hlinked]
  unfold scopeRoot
  cases hmethod : t.enclosingMethod? i with
  | none => exact List.mem_cons_self
  | some m =>
      have hlt := (Tree.ancestors_gt (Tree.mem_ancestors_of_nearest? hmethod).1).2
      exact Tree.root_mem_ancestors (fun i hi => (term.parent?_toTree_eq_none_iff hi).1) hlt

theorem Candidate.mem_preorder (s : Source) (root : Concrete.Node) {i c : Nat} {name : String} :
    let t := (Parsed.ofSource s root).tree
    Candidate t i name c → c ∈ t.preorder t.root := by
  intro t hc
  have hbelow := mem_descendants_scopeRoot s root hc.kind_eq
  have hwalk : c ∈ t.preorder (scopeRoot t c) :=
    Tree.cons_descendants t _ ▸ List.mem_cons_of_mem _ hbelow
  exact (Tree.preorder_sublist (scopeRoot_mem_preorder s root c)).subset hwalk

/-- Every assignment that counts is the chosen one, or leads it in the text. -/
theorem TypedFrom.leads (hlegible : root.Legible s) :
    let t := (Parsed.ofSource s root).tree
    TypedFrom t i name a → Candidate t i name c → c ≠ a →
      ∀ o, t.range? c = some o → ∀ r, t.range? a = some r → o.Leads r := by
  intro t h hc hne
  obtain ⟨walk, hsub, hlast, hmem⟩ := h.exists_walk
  have hscope : scopeRoot t c = scopeRoot t i := by
    unfold scopeRoot
    rw [hc.method_eq]
  have hwalk : c ∈ walk := by
    rw [hmem, ← hscope]
    exact ⟨mem_descendants_scopeRoot s root hc.kind_eq, hc⟩
  have hordered := (Parsed.preorder_pairwise_leads hlegible).sublist
    (hsub.trans (Tree.preorder_sublist (scopeRoot_mem_preorder s root i)))
  obtain ⟨front, rfl⟩ := List.getLast?_eq_some_iff.1 hlast
  rcases List.mem_append.1 hwalk with hfront | hself
  · exact (List.pairwise_append.1 hordered).2.2 c hfront a List.mem_cons_self
  · exact absurd (List.mem_singleton.1 hself) hne

end Parsed

/-! ## The last one to end -/

/-- One node ends after another one. -/
def EndsAfter (t : Tree) (c a : Nat) : Prop :=
  ∃ o r, t.range? c = some o ∧ t.range? a = some r ∧ r.stop < o.stop

/-- One node stands in another one, which goes on behind it. -/
def Holds (t : Tree) (c a : Nat) : Prop :=
  ∃ o r, t.range? c = some o ∧ t.range? a = some r ∧ o.contains r = true ∧ r.stop < o.stop

theorem Holds.endsAfter (h : Holds t c a) : EndsAfter t c a := by
  obtain ⟨o, r, ho, hr, -, hlt⟩ := h
  exact ⟨o, r, ho, hr, hlt⟩

/-- The assignment that a variable of a text is typed from is the last one to begin of those in the
same method that end before the variable.  It is the last one to end as well exactly when it stands
in no other of them, such as in the value of one. -/
theorem chosenAssignment_latest_iff (s : Source) (root : Concrete.Node)
    (hspans : root.WellSpanned s) (hforward : root.AllForward) (hnames : root.NamesFilled)
    (haddress : s.Addressable root.stop) (i a : Nat) (name : String) :
    let t := (Parsed.ofSource s root).tree
    TypedFrom t i name a →
      (Candidate t i name a ∧
        ∀ store, typesOf store t i = (t.childNode? a 1).elim [] (typesOf store t)) ∧
      (∀ c, Candidate t i name c → ∀ o, t.range? c = some o → ∀ r, t.range? a = some r →
        o.start ≤ r.start) ∧
      ((∀ c, Candidate t i name c → ¬ EndsAfter t c a) ↔
        ∀ c, Candidate t i name c → ¬ Holds t c a) := by
  intro t h
  have hlegible := hspans.legible hforward haddress
  have hspan : ∀ {c : Nat}, Candidate t i name c → ∀ {r : Range}, t.range? c = some r →
      r.start ≤ r.stop :=
    fun hc r hr => Parsed.range_start_le_stop hlegible _ (hc.mem_preorder s root) r hr
  refine ⟨⟨h.candidate, fun store => h.typesOf_eq store ?_⟩, ?_, ?_⟩
  · exact wellFounded_asks (spanned_ofSource hspans.spansNest hnames haddress)
  · intro c hc o ho r hr
    by_cases hne : c = a
    · cases (hne ▸ ho).symm.trans hr
      exact le_refl _
    · rcases h.leads hlegible hc hne o ho r hr with hcontains | hbefore
      · exact (Range.contains_iff.1 hcontains).1
      · exact le_trans (hspan hc ho) hbefore
  · refine ⟨fun hlatest c hc hholds => hlatest c hc hholds.endsAfter, ?_⟩
    rintro hnone c hc ⟨o, r, ho, hr, hlt⟩
    have hne : c ≠ a := by
      rintro rfl
      cases ho.symm.trans hr
      exact absurd hlt (lt_irrefl _)
    rcases h.leads hlegible hc hne o ho r hr with hcontains | hbefore
    · exact hnone c hc ⟨o, r, ho, hr, hcontains, hlt⟩
    · -- an assignment that ends before the chosen one begins does not end after it
      have hstop : o.stop ≤ r.stop := le_trans hbefore (hspan h.candidate hr)
      exact absurd hlt (not_lt_of_ge hstop)

/-- An assignment with another one to the same name in its value, and then the variable. -/
def nestedText : Source :=
  "x = [x = 1]\nx\n".toList

def nestedAssignment : Concrete.Node :=
  let inner := letterAssignment 4 5 10 ⟨6, .integer, true, 9, 10, some .right, []⟩
  ⟨0, .other, true, 0, 14, none,
    [letterAssignment 1 0 11 ⟨3, .array, true, 4, 11, some .right, [inner]⟩,
      ⟨7, .identifier, true, 12, 13, none, []⟩]⟩

theorem typedFrom_nestedAssignment :
    TypedFrom (Parsed.ofSource nestedText nestedAssignment).tree 4 "x" 1 where
  kind_eq := by decide +kernel
  name_eq := by decide +kernel
  no_parameter := by decide +kernel
  chosen := by decide +kernel

theorem candidate_nestedAssignment :
    Candidate (Parsed.ofSource nestedText nestedAssignment).tree 4 "x" 3 where
  kind_eq := by decide +kernel
  name_eq := by decide +kernel
  ends := ⟨⟨⟨1, 0⟩, ⟨1, 11⟩⟩, ⟨⟨2, 0⟩, ⟨2, 1⟩⟩, by decide +kernel, by decide +kernel, by decide⟩
  method_eq := by decide +kernel

theorem endsAfter_nestedAssignment :
    EndsAfter (Parsed.ofSource nestedText nestedAssignment).tree 3 1 :=
  ⟨⟨⟨1, 0⟩, ⟨1, 11⟩⟩, ⟨⟨1, 5⟩, ⟨1, 10⟩⟩, by decide +kernel, by decide +kernel, by decide⟩

/-- The inner assignment is chosen, and the outer one holds it. -/
theorem nestedAssignment_chosen :
    let t := (Parsed.ofSource nestedText nestedAssignment).tree
    (∀ store, typesOf store t 4 = ["Integer"]) ∧ ∃ c, Candidate t 4 "x" c ∧ Holds t c 1 := by
  intro t
  obtain ⟨⟨-, htypes⟩, -, hlatest⟩ := chosenAssignment_latest_iff nestedText nestedAssignment
    (by decide +kernel) (by decide +kernel) (by decide +kernel) (by decide +kernel) 4 1 "x"
    typedFrom_nestedAssignment
  refine ⟨?_, ?_⟩
  · intro store
    have hvalue : t.childNode? 1 1 = some 0 := by decide +kernel
    have hkind : t.kind 0 = .int := by decide +kernel
    have hsize : t.size = 5 + 1 := by decide +kernel
    rw [htypes store, hvalue, Option.elim_some, typesOf, hsize, typesWithin, typesGiven, hkind]
    rfl
  · by_contra hnone
    exact hlatest.2 (fun c hc hholds => hnone ⟨c, hc, hholds⟩) 3 candidate_nestedAssignment
      endsAfter_nestedAssignment

/-- The assignment that a variable is typed from need not be the last one to end. -/
theorem not_chosenAssignment_latest :
    ¬ ∀ (s : Source) (root : Concrete.Node), root.WellSpanned s → root.AllForward →
      root.NamesFilled → s.Addressable root.stop → ∀ (i a : Nat) (name : String),
        TypedFrom (Parsed.ofSource s root).tree i name a →
          ∀ c, Candidate (Parsed.ofSource s root).tree i name c →
            ¬ EndsAfter (Parsed.ofSource s root).tree c a := by
  intro hall
  exact hall nestedText nestedAssignment (by decide +kernel) (by decide +kernel)
    (by decide +kernel) (by decide +kernel) 4 1 "x" typedFrom_nestedAssignment 3
    candidate_nestedAssignment endsAfter_nestedAssignment

end Typing
end RubyIndex
