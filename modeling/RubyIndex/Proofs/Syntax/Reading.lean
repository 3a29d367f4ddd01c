import RubyIndex.Proofs.Syntax.Nested

/-!
# Reading order

A walk along the tree of a term, from the root on and down before to the side, comes to the ranges
of the term in the order in which the term was put together.  Nothing is asked of the ranges for
that.  If each of them holds those that follow or ends before they begin, the walk goes along the
text from the front to the back.

* `Range.Leads`, a range that holds another one or ends before it;
* `Term.ranges`, the ranges in a term, and `rangesAll`, those in some terms;
* `Forest.Walk`, the ranges that a walk along some nodes of a forest comes to;
* `Term.filterMap_range?_preorder`, the ranges along a tree are those in the term.
-/

namespace RubyIndex

/-- A range that holds another one, or ends before the other begins. -/
def Range.Leads (a b : Range) : Prop :=
  a.contains b = true ∨ a.stop ≤ b.start

namespace Syntax

/-! ## Terms -/

namespace Term

mutual

/-- The ranges in a term, each before those below it. -/
def ranges : Term → List Range
  | ⟨_, children, range, _⟩ => range.toList ++ rangesOf children

def rangesOf : List (Child Term) → List Range
  | [] => []
  | .leaf _ :: rest => rangesOf rest
  | .node t :: rest => ranges t ++ rangesOf rest

end

end Term

/-- The ranges in some terms, one term after the other. -/
def rangesAll (terms : List Term) : List Range :=
  terms.flatMap Term.ranges

section Terms

variable {t : Term} {terms terms' : List Term}

@[simp] theorem rangesAll_nil : rangesAll [] = [] := rfl

@[simp] theorem rangesAll_cons : rangesAll (t :: terms) = t.ranges ++ rangesAll terms :=
  List.flatMap_cons

@[simp] theorem rangesAll_append :
    rangesAll (terms ++ terms') = rangesAll terms ++ rangesAll terms' :=
  List.flatMap_append

theorem Term.rangesOf_eq (children : List (Child Term)) :
    rangesOf children = rangesAll (Child.nodes children) := by
  induction children with
  | nil => simp [rangesOf, Child.nodes]
  | cons c children ih => cases c <;> simp [rangesOf, ih]

theorem Term.ranges_eq (t : Term) :
    t.ranges = t.range.toList ++ rangesAll (Child.nodes t.children) := by
  cases t
  rw [ranges, rangesOf_eq]

end Terms

/-! ## Walks -/

namespace Forest

variable {f f' : Forest} {stack stack' : List Nat} {ranges ranges' : List Range}

/-- The ranges that a walk in pre-order comes to, along some nodes and all that is below them. -/
inductive Walk (f : Forest) : List Nat → List Range → Prop
  | nil : Walk f [] []
  | cons {i : Nat} {stack : List Nat} {ranges : List Range} :
      Walk f (f.childNodes i ++ stack) ranges → Walk f (i :: stack) ((f.range? i).toList ++ ranges)

theorem Walk.append (h : f.Walk stack ranges) (h' : f.Walk stack' ranges') :
    f.Walk (stack ++ stack') (ranges ++ ranges') := by
  induction h with
  | nil => exact h'
  | cons _ ih =>
      rw [List.append_assoc] at ih ⊢
      exact .cons ih

/-- A forest that has grown out of another one leads to the same ranges from the nodes of old. -/
theorem Walk.grown (h : f.Walk stack ranges)
    (hkept : ∀ i, i < f.size → f'.range? i = f.range? i ∧ f'.childNodes i = f.childNodes i)
    (hstack : ∀ i ∈ stack, i < f.size) : f'.Walk stack ranges := by
  induction h with
  | nil => exact .nil
  | @cons i stack ranges _ ih =>
      obtain ⟨hi, hrest⟩ := List.forall_mem_cons.1 hstack
      obtain ⟨hrange, hchildren⟩ := hkept i hi
      have hbelow : ∀ c ∈ f.childNodes i ++ stack, c < f.size := by
        refine List.forall_mem_append.2 ⟨?_, hrest⟩
        intro c hc
        have hlt := childNodes_lt hc
        omega
      have hwalk := ih hbelow
      rw [← hchildren] at hwalk
      rw [← hrange]
      exact .cons hwalk

end Forest

/-! ## Layout -/

namespace Term
namespace Placement

variable {f : Forest} {ranges ranges' : List Range}

/-- Placing children: the nodes that were there keep their ranges and children, and a walk along the
placed ones comes to certain ranges. -/
structure Spells (p : Placement f) (ranges : List Range) : Prop where
  kept : ∀ i, i < f.size →
    p.forest.range? i = f.range? i ∧ p.forest.childNodes i = f.childNodes i
  walk : p.forest.Walk p.roots ranges

theorem spells_none (f : Forest) : (none f).Spells [] where
  kept := fun _ _ => ⟨rfl, rfl⟩
  walk := .nil

theorem Spells.consLeaf {p : Placement f} (h : p.Spells ranges) (l : Leaf) :
    (p.consLeaf l).Spells ranges where
  kept := h.kept
  walk := h.walk

theorem Spells.append {p : Placement f} {q : Placement p.forest} (hp : p.Spells ranges)
    (hq : q.Spells ranges') : (p.append q).Spells (ranges ++ ranges') where
  kept := by
    intro i hi
    obtain ⟨hrange, hchildren⟩ := hp.kept i hi
    obtain ⟨hrange', hchildren'⟩ := hq.kept i (Nat.lt_of_lt_of_le hi p.grows)
    exact ⟨hrange'.trans hrange, hchildren'.trans hchildren⟩
  walk := by
    rw [roots_append]
    exact (hp.walk.grown hq.kept fun i hi => p.children_lt i (Child.mem_nodes.1 hi)).append hq.walk

theorem Spells.close {p : Placement f} (h : p.Spells ranges) (kind : Kind) (range : Option Range)
    (documentedOn : Option Nat) :
    (p.close kind range documentedOn).Spells (range.toList ++ ranges) where
  kept := by
    intro i hi
    have hne : i ≠ p.forest.size := by
      have := p.grows
      omega
    show (p.forest.add kind p.children range p.children_lt).range? i = f.range? i ∧
      (p.forest.add kind p.children range p.children_lt).childNodes i = f.childNodes i
    rw [Forest.range?_add, Forest.childNodes_add, if_neg hne, if_neg hne]
    exact h.kept i hi
  walk := by
    let f' := p.forest.add kind p.children range p.children_lt
    have hold : ∀ i, i < p.forest.size →
        f'.range? i = p.forest.range? i ∧ f'.childNodes i = p.forest.childNodes i := by
      intro i hi
      rw [Forest.range?_add, Forest.childNodes_add, if_neg (Nat.ne_of_lt hi),
        if_neg (Nat.ne_of_lt hi)]
      exact ⟨rfl, rfl⟩
    have hbelow : f'.Walk (f'.childNodes p.forest.size ++ []) ranges := by
      rw [Forest.childNodes_add, if_pos rfl, List.append_nil]
      exact h.walk.grown hold fun i hi => p.children_lt i (Child.mem_nodes.1 hi)
    have hroot := Forest.Walk.cons hbelow
    rw [Forest.range?_add, if_pos rfl] at hroot
    exact hroot

end Placement

mutual

theorem spells_place (f : Forest) : ∀ t : Term, (place f t).Spells t.ranges
  | ⟨kind, children, range, documentedOn⟩ =>
      (spells_placeAll f children).close kind range documentedOn

theorem spells_placeAll (f : Forest) :
    ∀ children : List (Child Term), (placeAll f children).Spells (rangesOf children)
  | [] => Placement.spells_none f
  | .leaf l :: rest => (spells_placeAll f rest).consLeaf l
  | .node t :: rest => (spells_place f t).append (spells_placeAll (place f t).forest rest)

end

end Term

/-! ## Trees -/

/-- The visits of a tree come to the ranges of the walk. -/
theorem Tree.filterMap_range?_visit {t : Tree} {stack : List Nat} {ranges : List Range}
    (h : t.Walk stack ranges) : (t.visit stack).filterMap t.range? = ranges := by
  induction h with
  | nil =>
      rw [visit]
      rfl
  | @cons i stack ranges _ ih =>
      have hrange : t.toForest.range? i = t.range? i := rfl
      rw [visit, List.filterMap_cons, show t.childNodes i = t.toForest.childNodes i from rfl, ih,
        hrange]
      cases t.range? i <;> rfl

/-- Along the tree of a term stand the ranges of the term. -/
theorem Term.filterMap_range?_preorder (t : Term) :
    (t.toTree.preorder t.toTree.root).filterMap t.toTree.range? = t.ranges := by
  have hwalk := (spells_place .empty t).walk
  rw [roots_place] at hwalk
  have hvisit := Tree.filterMap_range?_visit (t := t.toTree) hwalk
  rw [Tree.visit_eq_flatMap, List.flatMap_singleton] at hvisit
  exact hvisit

end Syntax
end RubyIndex
