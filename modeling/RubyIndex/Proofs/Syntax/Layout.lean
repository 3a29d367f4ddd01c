import RubyIndex.Proofs.Syntax.Linked
import RubyIndex.Proofs.Syntax.Preorder
import RubyIndex.Syntax.Term

/-!
# Laid out terms are whole trees

Laying out a term only ever adds nodes above ones that have no parent yet, and leaves none of the
new nodes without a parent except those of the term itself.

* `Term.Placement.Sound`, what laying out some children comes to, with one rule for each step;
* `Term.sound_place`, every term is laid out in this way.
-/

namespace RubyIndex
namespace Syntax
namespace Term

namespace Placement

variable {f : Forest}

/-- The nodes among the placed children. -/
def roots (p : Placement f) : List Nat :=
  Child.nodes p.children

/-- Nodes were added one after the other, those that were there have kept their parents, and of the
new ones exactly the placed children have none. -/
structure Sound (p : Placement f) : Prop where
  built : f.Built → p.forest.Built
  kept : ∀ i, i < f.size → p.forest.parent? i = f.parent? i
  mem_roots_iff : ∀ {i : Nat}, i ∈ p.roots ↔
    f.size ≤ i ∧ i < p.forest.size ∧ p.forest.parent? i = Option.none
  nodup : p.roots.Nodup

theorem sound_none (f : Forest) : (none f).Sound where
  built := id
  kept := fun _ _ => rfl
  mem_roots_iff := by
    intro i
    have hempty : i ∉ (none f).roots := List.not_mem_nil
    refine iff_of_false hempty ?_
    rintro ⟨hle, hlt, -⟩
    exact Nat.not_lt.2 hle hlt
  nodup := List.nodup_nil

/-- A leaf is no node. -/
theorem Sound.consLeaf {p : Placement f} (hp : p.Sound) (l : Leaf) : (p.consLeaf l).Sound where
  built := hp.built
  kept := hp.kept
  mem_roots_iff := hp.mem_roots_iff
  nodup := hp.nodup

theorem roots_append (p : Placement f) (q : Placement p.forest) :
    (p.append q).roots = p.roots ++ q.roots :=
  List.filterMap_append ..

theorem Sound.append {p : Placement f} {q : Placement p.forest} (hp : p.Sound) (hq : q.Sound) :
    (p.append q).Sound where
  built := fun hf => hq.built (hp.built hf)
  kept := by
    intro i hi
    exact (hq.kept i (Nat.lt_of_lt_of_le hi p.grows)).trans (hp.kept i hi)
  mem_roots_iff := by
    intro i
    have hgrows := p.grows
    have hgrows' := q.grows
    rw [roots_append, List.mem_append, hp.mem_roots_iff, hq.mem_roots_iff]
    show _ ↔ f.size ≤ i ∧ i < q.forest.size ∧ q.forest.parent? i = Option.none
    by_cases hi : i < p.forest.size
    · -- placed first, and not touched since
      have hi' : i < q.forest.size := by omega
      rw [hq.kept i hi]
      simp [hi, hi', Nat.not_le.2 hi]
    · have hle : f.size ≤ i := by omega
      simp [hi, hle, Nat.not_lt.1 hi]
  nodup := by
    rw [roots_append, List.nodup_append]
    refine ⟨hp.nodup, hq.nodup, ?_⟩
    intro i hi j hj
    have hlt := (hp.mem_roots_iff.1 hi).2.1
    have hle := (hq.mem_roots_iff.1 hj).1
    omega

/-- The placed children are there and have no parent yet, so a node above them is accepted. -/
theorem Sound.add?_eq {p : Placement f} (hp : p.Sound) (kind : Kind) (range : Option Range)
    (documentedOn : Option Nat) :
    p.forest.add? kind p.children range = some (p.close kind range documentedOn).forest := by
  have hattachable : p.forest.attachable p.children = true := by
    refine Forest.attachable_iff.2 ⟨?_, hp.nodup⟩
    intro i hi
    exact (hp.mem_roots_iff.1 hi).2
  exact dif_pos hattachable

/-- A node above the placed children takes them all. -/
theorem Sound.close {p : Placement f} (hp : p.Sound) (kind : Kind) (range : Option Range)
    (documentedOn : Option Nat) : (p.close kind range documentedOn).Sound where
  built := by
    intro hf
    exact .add (hp.built hf) (hp.add?_eq kind range documentedOn)
  kept := by
    intro i hi
    show (p.forest.add kind p.children range p.children_lt).parent? i = f.parent? i
    have hnot : i ∉ Child.nodes p.children := by
      intro hmem
      have := (hp.mem_roots_iff.1 hmem).1
      omega
    rw [Forest.parent?_add, if_neg hnot, hp.kept i hi]
  mem_roots_iff := by
    intro i
    show i ∈ [p.forest.size] ↔ f.size ≤ i ∧
      i < (p.forest.add kind p.children range p.children_lt).size ∧
      (p.forest.add kind p.children range p.children_lt).parent? i = Option.none
    rw [Forest.size_add, Forest.parent?_add, List.mem_singleton]
    constructor
    · rintro rfl
      have hnot : p.forest.size ∉ Child.nodes p.children := by
        intro hmem
        exact Nat.lt_irrefl _ (p.children_lt _ (Child.mem_nodes.1 hmem))
      rw [if_neg hnot]
      exact ⟨p.grows, Nat.lt_succ_self _, Forest.parent?_of_size_le (Nat.le_refl _)⟩
    · rintro ⟨hle, hlt, hnone⟩
      split at hnone
      · cases hnone
      · -- a node from before without a parent would be one of the children
        rename_i hnot
        have hnew : ¬ i < p.forest.size := fun hi => hnot (hp.mem_roots_iff.2 ⟨hle, hi, hnone⟩)
        omega
  nodup := List.nodup_singleton _

end Placement

/-! ## Terms -/

-- along the layout: each child is placed in the forest that the ones before it have left

mutual

theorem sound_place (f : Forest) : ∀ t : Term, (place f t).Sound
  | ⟨kind, children, range, documentedOn⟩ =>
      (sound_placeAll f children).close kind range documentedOn

theorem sound_placeAll (f : Forest) : ∀ children : List (Child Term), (placeAll f children).Sound
  | [] => Placement.sound_none f
  | .leaf l :: rest => (sound_placeAll f rest).consLeaf l
  | .node t :: rest => (sound_place f t).append (sound_placeAll (place f t).forest rest)

end

theorem roots_place (f : Forest) (t : Term) :
    (place f t).roots = [(place f t).forest.size - 1] := by
  cases t
  simp [place, Placement.close, Placement.roots, Child.nodes, Child.node?]

theorem built_toTree (t : Term) : t.toTree.Built :=
  (sound_place .empty t).built .empty

theorem linked_toTree (t : Term) : t.toTree.Linked :=
  Forest.linked_of_built t.built_toTree

/-- The root is the only node without a parent. -/
theorem parent?_toTree_eq_none_iff (t : Term) {i : Nat} (hi : i < t.toTree.size) :
    t.toTree.parent? i = none ↔ i = t.toTree.root := by
  have hroots := (sound_place .empty t).mem_roots_iff (i := i)
  rw [roots_place, List.mem_singleton] at hroots
  constructor
  · intro hnone
    exact hroots.2 ⟨Nat.zero_le i, hi, hnone⟩
  · intro hroot
    exact (hroots.1 hroot).2.2

end Term
end Syntax

end RubyIndex
