import Mathlib.Data.List.Pairwise
import RubyIndex.Proofs.Concrete.Positions
import RubyIndex.Proofs.Syntax.Layout

/-!
# Nested ranges

A term is nested when the ranges of its children lie in its own range and apart from each other, and
the same holds below.  Laid out as a tree it then has at most one way down to a position.

* `Range.Apart`, `Fills`, terms that stand in given regions of the text;
* `Term.Nested`, the nested terms, and `Forest.Nested`, the same for trees;
* `Term.nested_toTree`, laying a term out keeps it nested;
* `Tree.mem_ancestors_of_includes`, of two nodes at a position one is at or above the other.
-/

namespace RubyIndex

namespace Range

theorem contains_iff {outer inner : Range} :
    outer.contains inner = true ↔ outer.start ≤ inner.start ∧ inner.stop ≤ outer.stop := by
  simp [contains]

theorem includes_iff {r : Range} {p : Position} :
    r.includes p = true ↔ r.start ≤ p ∧ p < r.stop := by
  simp [includes]

theorem contains_trans {a b c : Range} (hab : a.contains b = true) (hbc : b.contains c = true) :
    a.contains c = true := by
  rw [contains_iff] at *
  exact ⟨le_trans hab.1 hbc.1, le_trans hbc.2 hab.2⟩

theorem contains_refl (r : Range) : r.contains r = true :=
  contains_iff.2 ⟨le_refl _, le_refl _⟩

theorem includes_of_contains {outer inner : Range} {p : Position}
    (h : outer.contains inner = true) (hp : inner.includes p = true) :
    outer.includes p = true := by
  rw [contains_iff] at h
  rw [includes_iff] at *
  exact ⟨le_trans h.1 hp.1, lt_of_lt_of_le hp.2 h.2⟩

/-- One of two ranges ends before the other begins. -/
def Apart (a b : Range) : Prop :=
  a.stop ≤ b.start ∨ b.stop ≤ a.start

namespace Apart

variable {a b a' b' : Range}

theorem symm (h : a.Apart b) : b.Apart a :=
  Or.symm h

/-- So do the ranges in them. -/
theorem of_contains (h : a.Apart b) (ha : a.contains a' = true) (hb : b.contains b' = true) :
    a'.Apart b' := by
  rw [contains_iff] at ha hb
  rcases h with h | h
  · exact Or.inl (le_trans ha.2 (le_trans h hb.1))
  · exact Or.inr (le_trans hb.2 (le_trans h ha.1))

/-- No position is in both. -/
theorem not_includes {p : Position} (h : a.Apart b) (ha : a.includes p = true) :
    b.includes p ≠ true := by
  intro hb
  rw [includes_iff] at ha hb
  rcases h with h | h
  · exact absurd (lt_of_lt_of_le ha.2 (le_trans h hb.1)) (lt_irrefl p)
  · exact absurd (lt_of_lt_of_le hb.2 (le_trans h ha.1)) (lt_irrefl p)

end Apart
end Range

namespace Syntax

/-! ## Terms -/

/-- Some ranges lie in another one and apart from each other; where there is no range to lie in,
there are none. -/
def Fit (outer : Option Range) (inner : List Range) : Prop :=
  (∀ r ∈ inner, ∃ o, outer = some o ∧ o.contains r = true) ∧ inner.Pairwise Range.Apart

/-- The ranges of the children fit into that of the term, at every depth. -/
inductive Term.Nested : Term → Prop
  | intro {t : Term} : (∀ c, Child.node c ∈ t.children → Term.Nested c) →
      Fit t.range ((Child.nodes t.children).filterMap Term.range) → Term.Nested t

/-- Nested terms that stand in regions of the text, apart from each other. -/
structure Fills (regions : List Range) (terms : List Term) : Prop where
  nested : ∀ t ∈ terms, t.Nested
  inside : ∀ r ∈ terms.filterMap Term.range, ∃ region ∈ regions, region.contains r = true
  apart : (terms.filterMap Term.range).Pairwise Range.Apart

namespace Fills

variable {regions regions' : List Range} {terms terms' : List Term}

theorem nil : Fills regions [] where
  nested := by simp
  inside := by simp
  apart := by simp

/-- A single term. -/
theorem single {t : Term} {region : Range} (ht : t.Nested)
    (h : ∀ r, t.range = some r → region.contains r = true) : Fills [region] [t] where
  nested := by simpa using ht
  inside := by
    intro r hr
    have hrange : t.range = some r := by simpa using hr
    exact ⟨region, by simp, h r hrange⟩
  apart := by
    cases hrange : t.range <;> simp [hrange]

/-- A term without a range stands nowhere. -/
theorem unlocated {t : Term} (ht : t.Nested) (hrange : t.range = none) : Fills [] [t] where
  nested := by simpa using ht
  inside := by simp [hrange]
  apart := by simp [hrange]

/-- Terms in regions that are apart from those of other terms. -/
theorem append (h : Fills regions terms) (h' : Fills regions' terms')
    (hapart : ∀ a ∈ regions, ∀ b ∈ regions', a.Apart b) :
    Fills (regions ++ regions') (terms ++ terms') where
  nested := by
    intro t ht
    rcases List.mem_append.1 ht with ht | ht
    · exact h.nested t ht
    · exact h'.nested t ht
  inside := by
    intro r hr
    rw [List.filterMap_append, List.mem_append] at hr
    rcases hr with hr | hr
    · obtain ⟨region, hregion, hcontains⟩ := h.inside r hr
      exact ⟨region, List.mem_append_left _ hregion, hcontains⟩
    · obtain ⟨region, hregion, hcontains⟩ := h'.inside r hr
      exact ⟨region, List.mem_append_right _ hregion, hcontains⟩
  apart := by
    rw [List.filterMap_append, List.pairwise_append]
    refine ⟨h.apart, h'.apart, ?_⟩
    intro r hr r' hr'
    obtain ⟨a, ha, har⟩ := h.inside r hr
    obtain ⟨b, hb, hbr⟩ := h'.inside r' hr'
    exact (hapart a ha b hb).of_contains har hbr

/-- Larger regions will do as well. -/
theorem widen (h : Fills regions terms)
    (hregions : ∀ a ∈ regions, ∃ b ∈ regions', b.contains a = true) : Fills regions' terms where
  nested := h.nested
  inside := by
    intro r hr
    obtain ⟨a, ha, har⟩ := h.inside r hr
    obtain ⟨b, hb, hba⟩ := hregions a ha
    exact ⟨b, hb, Range.contains_trans hba har⟩
  apart := h.apart

/-- One region around them all. -/
theorem into {region : Range} (h : Fills regions terms)
    (hregions : ∀ a ∈ regions, region.contains a = true) : Fills [region] terms :=
  h.widen fun a ha => ⟨region, List.mem_singleton.2 rfl, hregions a ha⟩

/-- Terms that stand in a range are the children of a nested term with that range. -/
theorem nested_term {children : List (Child Term)} {kind : Kind} {range : Range}
    {row : Option Nat} (h : Fills [range] (Child.nodes children)) :
    Term.Nested ⟨kind, children, some range, row⟩ := by
  refine .intro ?_ ⟨?_, h.apart⟩
  · intro c hc
    exact h.nested c (Child.mem_nodes.2 hc)
  · intro r hr
    obtain ⟨a, ha, har⟩ := h.inside r hr
    rw [List.mem_singleton.1 ha] at har
    exact ⟨range, rfl, har⟩

/-- That term stands in the range. -/
theorem enclose {children : List (Child Term)} {kind : Kind} {range : Range} {row : Option Nat}
    (h : Fills [range] (Child.nodes children)) :
    Fills [range] [⟨kind, children, some range, row⟩] := by
  refine .single h.nested_term ?_
  intro r hr
  cases hr
  exact Range.contains_refl _

end Fills

/-- A term without nodes below it. -/
theorem Term.nested_of_nodes_eq_nil {t : Term} (h : Child.nodes t.children = []) : t.Nested := by
  refine .intro ?_ ?_
  · intro c hc
    rw [← Child.mem_nodes, h] at hc
    cases hc
  · rw [h]
    exact ⟨by simp, by simp⟩

/-! ## Forests -/

namespace Forest

variable {f : Forest}

def range? (f : Forest) (i : Nat) : Option Range :=
  (f.nodes[i]?).bind Node.range

/-- The ranges of the children of each node fit into that of the node. -/
def Nested (f : Forest) : Prop :=
  ∀ i, Fit (f.range? i) ((f.childNodes i).filterMap f.range?)

theorem nested_empty : empty.Nested := by
  intro i
  simp [Fit, empty, childNodes, Child.nodes]

theorem childNodes_lt {i c : Nat} (h : c ∈ f.childNodes i) : c < i ∧ i < f.size := by
  unfold childNodes at h
  cases hn : f.nodes[i]? with
  | none => simp [hn, Child.nodes] at h
  | some n =>
      rw [hn] at h
      refine ⟨f.child_lt i n hn c (Child.mem_nodes.1 h), ?_⟩
      exact (Array.getElem?_eq_some_iff.1 hn).1

section Add

variable {kind : Kind} {children : List (Child Nat)} {range : Option Range}

/-- The new node has the range that was given, the others keep theirs. -/
theorem range?_add (h : ∀ c, Child.node c ∈ children → c < f.size) (i : Nat) :
    (f.add kind children range h).range? i = if i = f.size then range else f.range? i := by
  unfold range?
  rw [getElem?_add]
  split
  · rfl
  · split
    · cases f.nodes[i]? <;> rfl
    · rfl

/-- Nodes that were there have the ranges they had. -/
theorem filterMap_range?_add (h : ∀ c, Child.node c ∈ children → c < f.size) {nodes : List Nat}
    (hnodes : ∀ i ∈ nodes, i < f.size) :
    nodes.filterMap (f.add kind children range h).range? = nodes.filterMap f.range? := by
  refine List.filterMap_congr ?_
  intro i hi
  have hne : i ≠ f.size := Nat.ne_of_lt (hnodes i hi)
  rw [range?_add, if_neg hne]

theorem nested_add (hf : f.Nested) (h : ∀ c, Child.node c ∈ children → c < f.size)
    (hfit : Fit range ((Child.nodes children).filterMap f.range?)) :
    (f.add kind children range h).Nested := by
  intro i
  rw [range?_add, childNodes_add]
  split
  · rw [filterMap_range?_add h fun c hc => h c (Child.mem_nodes.1 hc)]
    exact hfit
  · have hold : ∀ c ∈ f.childNodes i, c < f.size := by
      intro c hc
      have hlt := childNodes_lt hc
      omega
    rw [filterMap_range?_add h hold]
    exact hf i

end Add
end Forest

/-! ## Layout -/

namespace Term
namespace Placement

variable {f : Forest}

/-- Placing children of given ranges: the nodes that were there keep their ranges, the placed
children have those, and all stays nested. -/
structure Keeps (p : Placement f) (ranges : List Range) : Prop where
  kept : ∀ i, i < f.size → p.forest.range? i = f.range? i
  ranges_eq : p.roots.filterMap p.forest.range? = ranges
  nested : f.Nested → p.forest.Nested

theorem keeps_none (f : Forest) : (none f).Keeps [] where
  kept := fun _ _ => rfl
  ranges_eq := rfl
  nested := id

theorem Keeps.consLeaf {p : Placement f} {ranges : List Range} (h : p.Keeps ranges) (l : Leaf) :
    (p.consLeaf l).Keeps ranges where
  kept := h.kept
  ranges_eq := h.ranges_eq
  nested := h.nested

theorem Keeps.append {p : Placement f} {q : Placement p.forest} {ranges ranges' : List Range}
    (hp : p.Keeps ranges) (hq : q.Keeps ranges') : (p.append q).Keeps (ranges ++ ranges') where
  kept := by
    intro i hi
    exact (hq.kept i (Nat.lt_of_lt_of_le hi p.grows)).trans (hp.kept i hi)
  ranges_eq := by
    have hfirst : p.roots.filterMap q.forest.range? = p.roots.filterMap p.forest.range? := by
      refine List.filterMap_congr ?_
      intro i hi
      exact hq.kept i (p.children_lt i (Child.mem_nodes.1 hi))
    calc (p.append q).roots.filterMap q.forest.range?
        = p.roots.filterMap q.forest.range? ++ q.roots.filterMap q.forest.range? := by
          rw [roots_append, List.filterMap_append]
      _ = ranges ++ ranges' := by rw [hfirst, hp.ranges_eq, hq.ranges_eq]
  nested := fun hf => hq.nested (hp.nested hf)

theorem Keeps.close {p : Placement f} {ranges : List Range} (h : p.Keeps ranges) (kind : Kind)
    {range : Option Range} (documentedOn : Option Nat) (hfit : Fit range ranges) :
    (p.close kind range documentedOn).Keeps range.toList where
  kept := by
    intro i hi
    have hne : i ≠ p.forest.size := by
      have := p.grows
      omega
    show (p.forest.add kind p.children range p.children_lt).range? i = f.range? i
    rw [Forest.range?_add, if_neg hne, h.kept i hi]
  ranges_eq := by
    show [p.forest.size].filterMap (p.forest.add kind p.children range p.children_lt).range? = _
    cases range <;> simp [Forest.range?_add]
  nested := by
    intro hf
    refine Forest.nested_add (h.nested hf) p.children_lt ?_
    rw [show (Child.nodes p.children).filterMap p.forest.range? = ranges from h.ranges_eq]
    exact hfit

end Placement

mutual

theorem keeps_place (f : Forest) : ∀ t : Term, t.Nested → (place f t).Keeps t.range.toList
  | ⟨kind, children, _, documentedOn⟩, .intro hbelow hfit =>
      (keeps_placeAll f children hbelow).close kind documentedOn hfit

theorem keeps_placeAll (f : Forest) : ∀ children : List (Child Term),
    (∀ c, Child.node c ∈ children → c.Nested) →
      (placeAll f children).Keeps ((Child.nodes children).filterMap Term.range)
  | [], _ => Placement.keeps_none f
  | .leaf l :: rest, h =>
      (keeps_placeAll f rest fun c hc => h c (List.mem_cons_of_mem _ hc)).consLeaf l
  | .node t :: rest, h => by
      have ht := keeps_place f t (h t List.mem_cons_self)
      have hrest := keeps_placeAll (place f t).forest rest fun c hc =>
        h c (List.mem_cons_of_mem _ hc)
      have hranges : (Child.nodes (.node t :: rest)).filterMap Term.range =
          t.range.toList ++ (Child.nodes rest).filterMap Term.range := by
        cases hrange : t.range <;> simp [hrange]
      rw [hranges]
      exact ht.append hrest

end

/-- The tree of a nested term is nested. -/
theorem nested_toTree {t : Term} (h : t.Nested) : t.toTree.Nested :=
  (keeps_place .empty t h).nested Forest.nested_empty

end Term

/-! ## Trees -/

namespace Tree

variable {t : Tree} {p : Position}

theorem includes_iff {i : Nat} :
    t.includes i p = true ↔ ∃ r, t.range? i = some r ∧ r.includes p = true := by
  unfold includes
  cases t.range? i <;> simp

/-- Where a node is, its parent is. -/
theorem includes_parent (ht : t.Linked) (hnested : t.Nested) {i j : Nat}
    (hparent : t.parent? j = some i) (hj : t.includes j p = true) : t.includes i p = true := by
  obtain ⟨r, hr, hp⟩ := includes_iff.1 hj
  have hchild : j ∈ t.childNodes i := ht.mem_childNodes_iff.2 hparent
  have hmem : r ∈ (t.childNodes i).filterMap t.range? := List.mem_filterMap.2 ⟨j, hchild, hr⟩
  obtain ⟨o, ho, hcontains⟩ := (hnested i).1 r hmem
  exact includes_iff.2 ⟨o, ho, Range.includes_of_contains hcontains hp⟩

/-- At a position there is at most one child of a node. -/
theorem eq_of_includes (ht : t.Linked) (hnested : t.Nested) {i j k : Nat}
    (hj : t.parent? j = some i) (hk : t.parent? k = some i)
    (hpj : t.includes j p = true) (hpk : t.includes k p = true) : j = k := by
  obtain ⟨r, hr, hp⟩ := includes_iff.1 hpj
  obtain ⟨r', hr', hp'⟩ := includes_iff.1 hpk
  have hapart : (t.childNodes i).Pairwise fun a b =>
      ∀ x, t.range? a = some x → ∀ y, t.range? b = some y → x.Apart y :=
    List.pairwise_filterMap.1 (hnested i).2
  have hsymm : Std.Symm fun a b =>
      ∀ x, t.range? a = some x → ∀ y, t.range? b = some y → x.Apart y :=
    ⟨fun a b hab x hx y hy => (hab y hy x hx).symm⟩
  by_contra hne
  have hjk := hapart.forall (ht.mem_childNodes_iff.2 hj) (ht.mem_childNodes_iff.2 hk) hne
  exact (hjk r hr r' hr').not_includes hp hp'

/-- Where a node is, all its ancestors are. -/
theorem includes_of_mem_ancestors (ht : t.Linked) (hnested : t.Nested) {i j : Nat}
    (hi : i ∈ t.ancestors j) (hj : t.includes j p = true) : t.includes i p = true := by
  cases hparent : t.parent? j with
  | none => simp [ancestors_of_no_parent hparent] at hi
  | some q =>
      have hgt := parent?_gt hparent
      have hq := includes_parent ht hnested hparent hj
      rw [ancestors_of_parent hparent] at hi
      rcases List.mem_cons.1 hi with rfl | hi
      · exact hq
      · exact includes_of_mem_ancestors ht hnested hi hq
termination_by t.size - j
decreasing_by omega

/-- Of two nodes at a position, below a third, one is at or above the other. -/
theorem mem_ancestors_of_includes (ht : t.Linked) (hnested : t.Nested) {r i j : Nat}
    (hi : i ∈ t.preorder r) (hj : j ∈ t.preorder r)
    (hpi : t.includes i p = true) (hpj : t.includes j p = true) :
    i ∈ j :: t.ancestors j ∨ j ∈ i :: t.ancestors i := by
  -- down from the third node, as long as both are below the same child
  induction r using Nat.strongRecOn with
  | ind r ih =>
      have hi' := hi
      have hj' := hj
      rw [preorder_eq, List.mem_cons, List.mem_flatMap] at hi hj
      rcases hi with rfl | ⟨c, hc, hic⟩
      · exact Or.inl ((mem_preorder_iff ht).1 hj')
      rcases hj with rfl | ⟨d, hd, hjd⟩
      · exact Or.inr ((mem_preorder_iff ht).1 hi')
      have hcp : t.includes c p = true := by
        rcases List.mem_cons.1 ((mem_preorder_iff ht).1 hic) with rfl | habove
        · exact hpi
        · exact includes_of_mem_ancestors ht hnested habove hpi
      have hdp : t.includes d p = true := by
        rcases List.mem_cons.1 ((mem_preorder_iff ht).1 hjd) with rfl | habove
        · exact hpj
        · exact includes_of_mem_ancestors ht hnested habove hpj
      have hcd : c = d := eq_of_includes ht hnested (ht.mem_childNodes_iff.1 hc)
        (ht.mem_childNodes_iff.1 hd) hcp hdp
      rw [← hcd] at hjd
      exact ih c (childNodes_lt hc) hic hjd

end Tree
end Syntax
end RubyIndex
