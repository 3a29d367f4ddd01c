import RubyIndex.Proofs.Syntax.Nested

/-!
# Ranges within ranges

A term lies within a region when its range does and the terms below it lie within that range.
Nothing is said about terms side by side.  Laid out as a tree, every node lies within all nodes
above it.

* `Term.Within`, `WithinAll`, terms that lie within a region;
* `Forest.Within`, the same for the nodes of a forest, and `Term.within_toTree`;
* `Tree.Spanned`, every node lies within those above it, and no local variable is empty.
-/

namespace RubyIndex
namespace Syntax

/-! ## Terms -/

/-- A term that stands in a region, if it stands anywhere, and at every depth a term in the range of
the one above it; no local variable is without a place of its own. -/
inductive Term.Within : Option Range → Term → Prop
  | intro {region : Option Range} {t : Term} :
      (∀ r, t.range = some r → ∃ o, region = some o ∧ o.contains r = true) →
      (t.kind = .localVar → ∃ r, t.range = some r ∧ r.start < r.stop) →
      (∀ c, Child.node c ∈ t.children → Term.Within t.range c) → Term.Within region t

/-- Terms that all stand in a region. -/
def WithinAll (region : Range) (terms : List Term) : Prop :=
  ∀ t ∈ terms, t.Within (some region)

variable {region : Range} {t : Term} {terms terms' : List Term}

@[simp] theorem withinAll_nil : WithinAll region [] := by
  simp [WithinAll]

@[simp] theorem withinAll_cons :
    WithinAll region (t :: terms) ↔ t.Within (some region) ∧ WithinAll region terms := by
  simp [WithinAll]

@[simp] theorem withinAll_append :
    WithinAll region (terms ++ terms') ↔ WithinAll region terms ∧ WithinAll region terms' :=
  List.forall_mem_append

theorem Term.Within.widen {outer : Range} (h : t.Within (some region))
    (hregion : outer.contains region = true) : t.Within (some outer) := by
  obtain ⟨hinside, hvariable, hbelow⟩ := h
  refine .intro ?_ hvariable hbelow
  intro r hr
  obtain ⟨o, ho, hcontains⟩ := hinside r hr
  cases ho
  exact ⟨outer, rfl, Range.contains_trans hregion hcontains⟩

theorem WithinAll.widen {outer : Range} (h : WithinAll region terms)
    (hregion : outer.contains region = true) : WithinAll outer terms :=
  fun t ht => (h t ht).widen hregion

/-- A term over what stands in its range. -/
theorem Term.within_of_range {kind : Kind} {children : List (Child Term)} {range : Range}
    {row : Option Nat} (hkind : kind ≠ .localVar) (h : WithinAll range (Child.nodes children))
    (hregion : region.contains range = true) :
    Term.Within (some region) ⟨kind, children, some range, row⟩ := by
  refine .intro ?_ (fun hvar => absurd hvar hkind) fun c hc => h c (Child.mem_nodes.2 hc)
  intro r hr
  cases hr
  exact ⟨region, rfl, hregion⟩

/-- A term without a range and with nothing below it stands in any region. -/
theorem Term.within_of_unlocated (hkind : t.kind ≠ .localVar) (hrange : t.range = none)
    (hchildren : t.children = []) : t.Within (some region) := by
  refine .intro ?_ (fun hvar => absurd hvar hkind) ?_
  · intro r hr
    rw [hrange] at hr
    cases hr
  · intro c hc
    rw [hchildren] at hc
    cases hc

/-! ## Forests -/

namespace Forest

variable {f : Forest}

def kind (f : Forest) (i : Nat) : Kind :=
  (f.nodes[i]?).elim .other Node.kind

/-- A node with a range stands within its parent, and a local variable takes up some room. -/
structure Within (f : Forest) : Prop where
  inside : ∀ i, ∀ c ∈ f.childNodes i, ∀ r, f.range? c = some r →
    ∃ o, f.range? i = some o ∧ o.contains r = true
  filled : ∀ i, f.kind i = .localVar → ∃ r, f.range? i = some r ∧ r.start < r.stop

theorem within_empty : empty.Within where
  inside := by simp [empty, childNodes, Child.nodes]
  filled := by simp [empty, kind]

section Add

variable {kind : Kind} {children : List (Child Nat)} {range : Option Range}

/-- The new node is of the kind that was given, the others keep theirs. -/
theorem kind_add (h : ∀ c, Child.node c ∈ children → c < f.size) (i : Nat) :
    (f.add kind children range h).kind i = if i = f.size then kind else f.kind i := by
  unfold Forest.kind
  rw [getElem?_add]
  split
  · rfl
  · split
    · cases f.nodes[i]? <;> rfl
    · rfl

theorem within_add (hf : f.Within) (h : ∀ c, Child.node c ∈ children → c < f.size)
    (hinside : ∀ c ∈ Child.nodes children, ∀ r, f.range? c = some r →
      ∃ o, range = some o ∧ o.contains r = true)
    (hfilled : kind = .localVar → ∃ r, range = some r ∧ r.start < r.stop) :
    (f.add kind children range h).Within where
  inside := by
    intro i c hc r hr
    rw [childNodes_add] at hc
    rw [range?_add] at hr ⊢
    split at hc
    · have hne : c ≠ f.size := Nat.ne_of_lt (h c (Child.mem_nodes.1 hc))
      rw [if_neg hne] at hr
      rw [if_pos ‹_›]
      exact hinside c hc r hr
    · have hlt := childNodes_lt hc
      have hne : c ≠ f.size := by omega
      rw [if_neg hne] at hr
      rw [if_neg ‹_›]
      exact hf.inside i c hc r hr
  filled := by
    intro i hi
    rw [kind_add] at hi
    rw [range?_add]
    split at hi
    · rw [if_pos ‹_›]
      exact hfilled hi
    · rw [if_neg ‹_›]
      exact hf.filled i hi

end Add
end Forest

/-! ## Layout -/

namespace Term
namespace Placement

variable {f : Forest} {region : Option Range}

/-- Placing children in a region: the nodes that were there keep their ranges, the placed children
stand in the region, and all nodes stay within their parents. -/
structure Settles (p : Placement f) (region : Option Range) : Prop where
  kept : ∀ i, i < f.size → p.forest.range? i = f.range? i
  inside : ∀ i ∈ p.roots, ∀ r, p.forest.range? i = some r →
    ∃ o, region = some o ∧ o.contains r = true
  within : f.Within → p.forest.Within

theorem settles_none (f : Forest) (region : Option Range) : (none f).Settles region where
  kept := fun _ _ => rfl
  inside := by
    intro i hi
    cases hi
  within := id

theorem Settles.consLeaf {p : Placement f} (h : p.Settles region) (l : Leaf) :
    (p.consLeaf l).Settles region where
  kept := h.kept
  inside := h.inside
  within := h.within

theorem Settles.append {p : Placement f} {q : Placement p.forest} (hp : p.Settles region)
    (hq : q.Settles region) : (p.append q).Settles region where
  kept := by
    intro i hi
    exact (hq.kept i (Nat.lt_of_lt_of_le hi p.grows)).trans (hp.kept i hi)
  inside := by
    intro i hi r hr
    rw [roots_append, List.mem_append] at hi
    rcases hi with hi | hi
    · refine hp.inside i hi r ?_
      rw [← hq.kept i (p.children_lt i (Child.mem_nodes.1 hi))]
      exact hr
    · exact hq.inside i hi r hr
  within := fun hf => hq.within (hp.within hf)

theorem Settles.close {p : Placement f} {kind : Kind} {range : Option Range}
    (h : p.Settles range) (documentedOn : Option Nat)
    (hinside : ∀ r, range = some r → ∃ o, region = some o ∧ o.contains r = true)
    (hfilled : kind = .localVar → ∃ r, range = some r ∧ r.start < r.stop) :
    (p.close kind range documentedOn).Settles region where
  kept := by
    intro i hi
    have hne : i ≠ p.forest.size := by
      have := p.grows
      omega
    show (p.forest.add kind p.children range p.children_lt).range? i = f.range? i
    rw [Forest.range?_add, if_neg hne, h.kept i hi]
  inside := by
    intro i hi r hr
    have hroot : i = p.forest.size := List.mem_singleton.1 hi
    have hrange : (p.forest.add kind p.children range p.children_lt).range? i = some r := hr
    rw [Forest.range?_add, if_pos hroot] at hrange
    exact hinside r hrange
  within := fun hf => Forest.within_add (h.within hf) p.children_lt h.inside hfilled

end Placement

mutual

theorem settles_place (f : Forest) : ∀ (t : Term) {region : Option Range}, t.Within region →
    (place f t).Settles region
  | ⟨_, children, _, documentedOn⟩, _, .intro hinside hfilled hbelow =>
      (settles_placeAll f children hbelow).close documentedOn hinside hfilled

theorem settles_placeAll (f : Forest) : ∀ (children : List (Child Term)) {region : Option Range},
    (∀ c, Child.node c ∈ children → c.Within region) → (placeAll f children).Settles region
  | [], region, _ => Placement.settles_none f region
  | .leaf l :: rest, _, h =>
      (settles_placeAll f rest fun c hc => h c (List.mem_cons_of_mem _ hc)).consLeaf l
  | .node t :: rest, _, h =>
      (settles_place f t (h t List.mem_cons_self)).append
        (settles_placeAll (place f t).forest rest fun c hc => h c (List.mem_cons_of_mem _ hc))

end

theorem within_toTree {t : Term} {region : Option Range} (h : t.Within region) :
    t.toTree.Within :=
  (settles_place .empty t h).within Forest.within_empty

end Term

/-! ## Trees -/

/-- Every node stands within all nodes above it, as far as they have ranges, and every local
variable takes up some room. -/
structure Tree.Spanned (t : Tree) : Prop where
  inside : ∀ {a i : Nat}, i ∈ t.descendants a → ∀ {r o : Range}, t.range? i = some r →
    t.range? a = some o → o.contains r = true
  filled : ∀ {i : Nat}, t.kind i = .localVar → ∃ r, t.range? i = some r ∧ r.start < r.stop

/-- Within its parent is within all nodes above. -/
theorem Tree.spanned_of_within {t : Tree} (h : t.Within) : t.Spanned where
  inside := by
    -- a node below has its range in that of a child, which has one because it holds another
    have hbelow : ∀ {a i : Nat}, i ∈ t.preorder a → ∀ {r : Range}, t.range? i = some r →
        ∃ o, t.range? a = some o ∧ o.contains r = true := by
      intro a
      induction a using Nat.strongRecOn with
      | ind a ih =>
          intro i hi r hr
          rw [preorder_eq, List.mem_cons, List.mem_flatMap] at hi
          rcases hi with rfl | ⟨c, hc, hi⟩
          · exact ⟨r, hr, Range.contains_refl r⟩
          · obtain ⟨o, ho, hor⟩ := ih c (childNodes_lt hc) hi hr
            obtain ⟨o', ho', hoo⟩ := h.inside a c hc o ho
            exact ⟨o', ho', Range.contains_trans hoo hor⟩
    intro a i hi r o hr ho
    have hmem : i ∈ t.preorder a := cons_descendants t a ▸ List.mem_cons_of_mem a hi
    obtain ⟨o', ho', hcontains⟩ := hbelow hmem hr
    cases ho.symm.trans ho'
    exact hcontains
  filled := fun hi => h.filled _ hi

end Syntax
end RubyIndex
