import RubyIndex.Proofs.Syntax.Nested

/-!
# The innermost node at a position

In any tree, the last node of the walk from the root that is at a position has no other such node
below it.  In a nested tree, all other nodes at the position are above it.

* `Tree.descendants_of_preorder_eq`, what is below a node follows it at once in the walk;
* `Tree.nodeAt?_eq_none_iff`, `Tree.includes_of_nodeAt?`, in any tree;
* `Tree.includes_iff_nodeAt?`, in a nested tree.
-/

namespace RubyIndex
namespace Syntax
namespace Tree

variable {t : Tree} {p : Position}

/-! ## The walk -/

/-- A list that goes on with another one behind each occurrence of an element, put together from
parts that do so. -/
theorem append_of_flatMap_eq {α β : Type} {f : α → List β} {m : β} {after : List β} {as : List α}
    (hparts : ∀ a ∈ as, ∀ before rest, f a = before ++ m :: rest → after <+: rest) :
    ∀ before rest, as.flatMap f = before ++ m :: rest → after <+: rest := by
  induction as with
  | nil =>
      intro before rest h
      simp at h
  | cons a as ih =>
      intro before rest h
      rw [List.flatMap_cons] at h
      have htail := ih fun b hb => hparts b (List.mem_cons_of_mem _ hb)
      rcases List.append_eq_append_iff.1 h with ⟨gap, -, hgap⟩ | ⟨gap, hfirst, hgap⟩
      · -- in one of the later parts
        exact htail gap rest hgap
      · cases gap with
        | nil => exact htail [] rest hgap.symm
        | cons m' gap =>
            -- in the first part, which goes on as it should
            obtain ⟨rfl, rfl⟩ := List.cons.inj hgap
            have hafter := hparts a List.mem_cons_self before gap hfirst
            exact hafter.trans (List.prefix_append _ _)

/-- What is below a node follows it at once in the walk. -/
theorem descendants_of_preorder_eq {i m : Nat} {before rest : List Nat}
    (h : t.preorder i = before ++ m :: rest) : t.descendants m <+: rest := by
  induction i using Nat.strongRecOn generalizing before rest with
  | ind i ih =>
      cases before with
      | nil =>
          rw [← cons_descendants] at h
          obtain ⟨rfl, rfl⟩ := List.cons.inj h
          exact List.prefix_refl _
      | cons i' before =>
          rw [preorder_eq] at h
          have hbelow := (List.cons.inj h).2
          refine append_of_flatMap_eq ?_ before rest hbelow
          intro c hc before' rest' hc'
          exact ih c (childNodes_lt hc) hc'

/-! ## Any tree -/

theorem nodeAt?_eq_none_iff :
    t.nodeAt? p = none ↔ ∀ i ∈ t.root :: t.descendants t.root, t.includes i p = false := by
  rw [nodeAt?, List.getLast?_eq_none_iff, List.filter_eq_nil_iff]
  simp

/-- A node that is found is the last one in the walk. -/
theorem exists_of_nodeAt? {m : Nat} (h : t.nodeAt? p = some m) :
    ∃ before rest, t.preorder t.root = before ++ m :: rest ∧ t.includes m p = true ∧
      ∀ i ∈ rest, t.includes i p = false := by
  rw [nodeAt?, cons_descendants] at h
  obtain ⟨found, hfound⟩ := List.getLast?_eq_some_iff.1 h
  obtain ⟨front, back, hwalk, -, hback⟩ := List.filter_eq_append_iff.1 hfound
  obtain ⟨gap, rest, rfl, -, hm, hrest⟩ := List.filter_eq_cons_iff.1 hback
  refine ⟨front ++ gap, rest, by rw [hwalk, List.append_assoc], hm, ?_⟩
  intro i hi
  simpa using List.filter_eq_nil_iff.1 hrest i hi

/-- It is at the position, and nothing below it is. -/
theorem includes_of_nodeAt? {m : Nat} (h : t.nodeAt? p = some m) :
    t.includes m p = true ∧ ∀ i ∈ t.descendants m, t.includes i p = false := by
  obtain ⟨before, rest, hwalk, hm, hrest⟩ := exists_of_nodeAt? h
  refine ⟨hm, ?_⟩
  intro i hi
  exact hrest i ((descendants_of_preorder_eq hwalk).subset hi)

/-! ## Nested trees -/

/-- The nodes at a position are the innermost one and those above it. -/
theorem includes_iff_nodeAt? (ht : t.Linked) (hnested : t.Nested)
    (hroot : ∀ i, i < t.size → t.parent? i = none → i = t.root) {i : Nat} (hi : i < t.size) :
    t.includes i p = true ↔ ∃ m, t.nodeAt? p = some m ∧ i ∈ m :: t.ancestors m := by
  have hwalk : i ∈ t.preorder t.root := (mem_preorder_iff ht).2 (root_mem_ancestors hroot hi)
  constructor
  · intro hpi
    cases hm : t.nodeAt? p with
    | none =>
        rw [nodeAt?_eq_none_iff, cons_descendants] at hm
        rw [hm i hwalk] at hpi
        cases hpi
    | some m =>
        obtain ⟨hpm, hbelow⟩ := includes_of_nodeAt? hm
        obtain ⟨before, rest, hpre, -, -⟩ := exists_of_nodeAt? hm
        have hmwalk : m ∈ t.preorder t.root := by simp [hpre]
        refine ⟨m, rfl, ?_⟩
        rcases mem_ancestors_of_includes ht hnested hwalk hmwalk hpi hpm with habove | hunder
        · exact habove
        · -- below the node that was found there is nothing, so this is the node itself
          have hpreorder := (mem_preorder_iff ht).2 hunder
          rw [← cons_descendants] at hpreorder
          rcases List.mem_cons.1 hpreorder with rfl | hdescendant
          · exact List.mem_cons_self
          · rw [hbelow i hdescendant] at hpi
            cases hpi
  · rintro ⟨m, hm, hmem⟩
    have hpm := (includes_of_nodeAt? hm).1
    rcases List.mem_cons.1 hmem with rfl | habove
    · exact hpm
    · exact includes_of_mem_ancestors ht hnested habove hpm

end Tree
end Syntax
end RubyIndex
