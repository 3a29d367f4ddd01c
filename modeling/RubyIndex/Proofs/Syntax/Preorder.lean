import Mathlib.Data.List.Nodup
import RubyIndex.Proofs.Syntax.Linked
import RubyIndex.Syntax.Traversal

/-!
# The nodes below a node

The walk by a stack and the recursion along the children visit the same nodes in the same order.  In
a linked tree these are the nodes from which the way upward leads to the starting point, each of
them once.

* `Tree.visit_eq_flatMap`, `Tree.cons_descendants`, the walk as a recursion;
* `Tree.mem_preorder_iff`, `Tree.mem_descendants_iff`, the nodes it comes to, by their ancestors;
* `Tree.nodup_preorder`, it comes to none of them twice;
* `Tree.preorder_root_perm`, from the only node without a parent it comes to all nodes.
-/

namespace RubyIndex
namespace Syntax
namespace Tree

variable {t : Tree}

/-! ## The order of visits -/

theorem preorder_eq (t : Tree) (i : Nat) :
    t.preorder i = i :: (t.childNodes i).flatMap t.preorder := by
  rw [preorder]
  congr 1
  simp

theorem visit_eq_flatMap (t : Tree) (stack : List Nat) :
    t.visit stack = stack.flatMap t.preorder := by
  fun_induction visit t stack with
  | case1 => rfl
  | case2 i stack ih =>
      rw [ih, List.flatMap_append, List.flatMap_cons, preorder_eq t i, List.cons_append]

theorem descendants_eq_flatMap (t : Tree) (i : Nat) :
    t.descendants i = (t.childNodes i).flatMap t.preorder :=
  visit_eq_flatMap t (t.childNodes i)

theorem cons_descendants (t : Tree) (i : Nat) : i :: t.descendants i = t.preorder i := by
  rw [descendants_eq_flatMap, preorder_eq t i]

/-- The empty filter lets every node pass. -/
theorem descendantsOf_nil (t : Tree) (i : Nat) : t.descendantsOf [] i = t.descendants i :=
  List.filter_eq_self.2 fun _ _ => rfl

/-! ## The way upward -/

/-- Above a node stand the parents of the node itself and of the nodes above it. -/
theorem mem_ancestors_iff {i j : Nat} :
    i ∈ t.ancestors j ↔ ∃ c ∈ j :: t.ancestors j, t.parent? c = some i := by
  cases hparent : t.parent? j with
  | none => simp [ancestors_of_no_parent hparent, hparent]
  | some p =>
      -- the induction goes upward, where indices grow
      have hgt := parent?_gt hparent
      have hp : i ∈ t.ancestors p ↔ ∃ c ∈ p :: t.ancestors p, t.parent? c = some i :=
        mem_ancestors_iff
      rw [ancestors_of_parent hparent, List.mem_cons, hp]
      simp [hparent, eq_comm]
termination_by t.size - j
decreasing_by omega

/-- On the way upward only one node has a given parent. -/
theorem eq_of_parent? {i j c c' : Nat} (hc : c ∈ j :: t.ancestors j)
    (hc' : c' ∈ j :: t.ancestors j) (h : t.parent? c = some i) (h' : t.parent? c' = some i) :
    c = c' := by
  -- the nodes above a parent come after it, so none of them has it as its parent
  have habove : ∀ {p d : Nat}, d ∈ p :: t.ancestors p → t.parent? d ≠ some p := by
    intro p d hd hparent
    have hlt := (parent?_gt hparent).1
    rcases List.mem_cons.1 hd with rfl | hd
    · omega
    · have := (ancestors_gt hd).1
      omega
  cases hparent : t.parent? j with
  | none =>
      rw [ancestors_of_no_parent hparent, List.mem_singleton] at hc hc'
      exact hc.trans hc'.symm
  | some p =>
      rw [ancestors_of_parent hparent, List.mem_cons] at hc hc'
      rcases hc with rfl | hc
      · cases hparent.symm.trans h
        rcases hc' with rfl | hc'
        · rfl
        · exact absurd h' (habove hc')
      · rcases hc' with rfl | hc'
        · cases hparent.symm.trans h'
          exact absurd h (habove hc)
        · have hgt := parent?_gt hparent
          exact eq_of_parent? hc hc' h h'
termination_by t.size - j
decreasing_by omega

/-! ## Linked trees -/

/-- A node stands once among the children of its parent, and nowhere else. -/
theorem count_children (ht : t.Linked) (i q : Nat) :
    (t.children q).count (.node i) = if t.parent? i = some q then 1 else 0 := by
  have hlink : i ∈ Child.nodes (t.children q) ↔ t.parent? i = some q := ht.mem_childNodes_iff
  have hnodup : (Child.nodes (t.children q)).Nodup := ht.nodup q
  rw [← Child.count_nodes, List.Nodup.count hnodup]
  simp only [hlink]

theorem le_of_mem_preorder {i j : Nat} (h : j ∈ t.preorder i) : j ≤ i := by
  induction i using Nat.strongRecOn with
  | ind i ih =>
      rw [preorder_eq, List.mem_cons, List.mem_flatMap] at h
      rcases h with rfl | ⟨c, hc, hj⟩
      · exact Nat.le_refl _
      · have hlt := childNodes_lt hc
        have hle := ih c hlt hj
        omega

/-- The nodes at and below a node are those that have it at or above them. -/
theorem mem_preorder_iff (ht : t.Linked) {i j : Nat} :
    j ∈ t.preorder i ↔ i ∈ j :: t.ancestors j := by
  induction i using Nat.strongRecOn with
  | ind i ih =>
      rw [preorder_eq, List.mem_cons, List.mem_cons, List.mem_flatMap, mem_ancestors_iff]
      refine or_congr eq_comm (exists_congr ?_)
      intro c
      -- the child below which the node stands is the last one on its way upward
      have hlink : c ∈ t.childNodes i ↔ t.parent? c = some i := ht.mem_childNodes_iff
      constructor
      · rintro ⟨hc, hj⟩
        exact ⟨(ih c (childNodes_lt hc)).1 hj, hlink.1 hc⟩
      · rintro ⟨hc, hparent⟩
        have hchild := hlink.2 hparent
        exact ⟨hchild, (ih c (childNodes_lt hchild)).2 hc⟩

theorem nodup_preorder (ht : t.Linked) (i : Nat) : (t.preorder i).Nodup := by
  induction i using Nat.strongRecOn with
  | ind i ih =>
      rw [preorder_eq, List.nodup_cons, List.nodup_flatMap]
      refine ⟨?_, fun c hc => ih c (childNodes_lt hc), ?_⟩
      · intro hmem
        rcases List.mem_flatMap.1 hmem with ⟨c, hc, hi⟩
        have hlt := childNodes_lt hc
        have hle := le_of_mem_preorder hi
        omega
      · -- a node below two children would have both of them on its way upward
        have hnodup : (t.childNodes i).Nodup := ht.nodup i
        refine List.Pairwise.imp_of_mem ?_ hnodup
        intro c c' hc hc' hne j hj hj'
        have hparent : t.parent? c = some i := ht.mem_childNodes_iff.1 hc
        have hparent' : t.parent? c' = some i := ht.mem_childNodes_iff.1 hc'
        exact hne (eq_of_parent? ((mem_preorder_iff ht).1 hj) ((mem_preorder_iff ht).1 hj')
          hparent hparent')

theorem nodup_cons_descendants (ht : t.Linked) (i : Nat) : (i :: t.descendants i).Nodup := by
  rw [cons_descendants]
  exact nodup_preorder ht i

/-- Below a node are those nodes that have it above them. -/
theorem mem_descendants_iff (ht : t.Linked) {i j : Nat} :
    j ∈ t.descendants i ↔ i ∈ t.ancestors j := by
  have hnodup := nodup_cons_descendants ht i
  have hiff := mem_preorder_iff ht (i := i) (j := j)
  rw [← cons_descendants, List.mem_cons, List.mem_cons] at hiff
  by_cases hij : j = i
  · -- a node is neither below nor above itself
    subst hij
    refine iff_of_false (List.nodup_cons.1 hnodup).1 ?_
    intro habove
    exact Nat.lt_irrefl _ (ancestors_gt habove).1
  · simpa [hij, Ne.symm hij] using hiff

/-! ## Whole trees -/

/-- When only the root lacks a parent, the way upward ends there. -/
theorem root_mem_ancestors (hroot : ∀ i, i < t.size → t.parent? i = none → i = t.root) {i : Nat}
    (hi : i < t.size) : t.root ∈ i :: t.ancestors i := by
  cases hparent : t.parent? i with
  | none =>
      rw [hroot i hi hparent]
      exact List.mem_cons_self
  | some p =>
      have hgt := parent?_gt hparent
      rw [ancestors_of_parent hparent]
      exact List.mem_cons_of_mem _ (root_mem_ancestors hroot hgt.2)
termination_by t.size - i
decreasing_by omega

/-- From a root that alone lacks a parent, the walk comes to every node once. -/
theorem preorder_root_perm (ht : t.Linked)
    (hroot : ∀ i, i < t.size → t.parent? i = none → i = t.root) :
    (t.preorder t.root).Perm (List.range t.size) := by
  rw [List.perm_ext_iff_of_nodup (nodup_preorder ht t.root) List.nodup_range]
  intro i
  rw [List.mem_range]
  constructor
  · intro hi
    exact Nat.lt_of_le_of_lt (le_of_mem_preorder hi) t.root_lt
  · intro hi
    exact (mem_preorder_iff ht).2 (root_mem_ancestors hroot hi)

end Tree
end Syntax
end RubyIndex
