import RubyIndex.Proofs.Syntax.Enclosing

/-!
# The nearest node above

The nearest node of some kinds is the parent or, if that is of another kind, what is nearest to the
parent.  Kinds that are among others can be looked for in two parts, first up to the nearest node of
all those kinds and then from that node on.

* `Tree.upward`, induction from a node to its parent;
* `Tree.nearest?_of_parent`, `Tree.mem_ancestors_iff_of_nearest?`, `Tree.nearest?_through`, the
  nearest node of some kinds;
* `Tree.enclosingMethod?_of_scope`, the method around a node, looked for from its scope on;
* `Tree.Parts`, `Tree.scope_eq_iff`, when two nodes of one method stand in the same scope.
-/

namespace RubyIndex
namespace Syntax
namespace Tree

variable {t : Tree} {i j p f : Nat} {kinds wider : List Kind}

/-! ## The way upward -/

/-- What holds where the way upward ends, and of a node if it holds of the parent, holds always. -/
theorem upward {motive : Nat → Prop} (top : ∀ i, t.parent? i = none → motive i)
    (step : ∀ i p, t.parent? i = some p → motive p → motive i) (i : Nat) : motive i := by
  cases hparent : t.parent? i with
  | none => exact top i hparent
  | some p =>
      have hgt := parent?_gt hparent
      exact step i p hparent (upward top step p)
termination_by t.size - i
decreasing_by omega

theorem nearest?_of_no_parent (h : t.parent? i = none) : t.nearest? kinds i = none := by
  simp [nearest?, ancestors_of_no_parent h]

theorem nearest?_of_parent (h : t.parent? i = some p) :
    t.nearest? kinds i = if t.accepts kinds p then some p else t.nearest? kinds p := by
  rw [nearest?, ancestors_of_parent h, List.find?_cons]
  cases t.accepts kinds p <;> rfl

theorem mem_ancestors_of_nearest? (h : t.nearest? kinds i = some p) :
    p ∈ t.ancestors i ∧ t.accepts kinds p = true :=
  ⟨List.mem_of_find?_eq_some h, List.find?_some h⟩

theorem not_mem_ancestors_of_nearest? (h : t.nearest? kinds i = none)
    (hf : t.accepts kinds f = true) : f ∉ t.ancestors i := by
  intro hmem
  exact List.find?_eq_none.1 h f hmem hf

/-- Above a node, the nodes of some kinds are the nearest one and those above that. -/
theorem mem_ancestors_iff_of_nearest? (h : t.nearest? kinds i = some p)
    (hf : t.accepts kinds f = true) : f ∈ t.ancestors i ↔ f ∈ p :: t.ancestors p := by
  induction i using upward (t := t) with
  | top i hparent =>
      rw [nearest?_of_no_parent hparent] at h
      cases h
  | step i q hparent ih =>
      rw [nearest?_of_parent hparent] at h
      rw [ancestors_of_parent hparent]
      split at h
      · cases h
        rfl
      · rename_i hother
        -- a node of another kind is passed on the way
        have hne : f ≠ q := by
          rintro rfl
          exact hother hf
        rw [List.mem_cons, ih h]
        simp [hne]

/-- Looking for some kinds from the nearest node of these and others on. -/
theorem nearest?_through (hwider : ∀ q, t.accepts kinds q = true → t.accepts wider q = true)
    (h : t.nearest? wider i = some p) :
    t.nearest? kinds i = if t.accepts kinds p then some p else t.nearest? kinds p := by
  induction i using upward (t := t) with
  | top i hparent =>
      rw [nearest?_of_no_parent hparent] at h
      cases h
  | step i q hparent ih =>
      rw [nearest?_of_parent hparent] at h ⊢
      split at h
      · cases h
        rfl
      · rename_i hother
        have hnot : t.accepts kinds q ≠ true := fun hq => hother (hwider q hq)
        rw [if_neg hnot]
        exact ih h

/-! ## Scopes -/

theorem accepts_scopeKinds_iff :
    t.accepts scopeKinds i = true ↔
      (t.kind i).isMethodDefinition = true ∨ (t.kind i).isNamespace = true ∨
        t.kind i = .singletonClass := by
  cases hkind : t.kind i <;> simp [accepts, scopeKinds, hkind, Kind.isMethodDefinition,
    Kind.isNamespace]

theorem accepts_methods_iff :
    t.accepts [.method, .singletonMethod] i = (t.kind i).isMethodDefinition := by
  cases hkind : t.kind i <;> simp [accepts, hkind, Kind.isMethodDefinition]

/-- The method around a node is its scope, or the one around its scope. -/
theorem enclosingMethod?_of_scope (h : t.nearest? scopeKinds i = some p) :
    t.enclosingMethod? i =
      if (t.kind p).isMethodDefinition then some p else t.enclosingMethod? p := by
  have hscope : ∀ q, t.accepts [.method, .singletonMethod] q = true →
      t.accepts scopeKinds q = true := by
    intro q hq
    rw [accepts_methods_iff] at hq
    exact accepts_scopeKinds_iff.2 (Or.inl hq)
  unfold enclosingMethod?
  rw [nearest?_through hscope h, accepts_methods_iff]

theorem enclosingMethod?_of_no_scope (h : t.nearest? scopeKinds i = none) :
    t.enclosingMethod? i = none := by
  refine List.find?_eq_none.2 ?_
  intro q hq hmethod
  rw [accepts_methods_iff] at hmethod
  exact not_mem_ancestors_of_nearest? h (accepts_scopeKinds_iff.2 (Or.inl hmethod)) hq

/-- A class, module or singleton class that stands around one of two nodes and not the other, with
no method definition between itself and the one that both nodes belong to. -/
structure Parts (t : Tree) (f i j : Nat) : Prop where
  opens : (t.kind f).isNamespace = true ∨ t.kind f = .singletonClass
  method_eq : t.enclosingMethod? f = t.enclosingMethod? i
  above_one : ¬ (f ∈ t.ancestors i ↔ f ∈ t.ancestors j)

theorem Parts.symm (h : t.Parts f i j) (hmethod : t.enclosingMethod? i = t.enclosingMethod? j) :
    t.Parts f j i :=
  ⟨h.opens, h.method_eq.trans hmethod, fun hiff => h.above_one hiff.symm⟩

/-- With nothing that parts them, the scope of one node is above the other. -/
theorem scope_mem_ancestors (hmethod : t.enclosingMethod? i = t.enclosingMethod? j)
    (hnone : ∀ f, ¬ t.Parts f i j) (h : t.nearest? scopeKinds i = some p) :
    p ∈ t.ancestors j := by
  obtain ⟨hmem, haccepts⟩ := mem_ancestors_of_nearest? h
  have hscope := enclosingMethod?_of_scope h
  rcases accepts_scopeKinds_iff.1 haccepts with hdefinition | hopens
  · -- a method, which is around both
    rw [if_pos hdefinition, hmethod] at hscope
    exact (mem_ancestors_of_nearest? hscope).1
  · have hother : (t.kind p).isMethodDefinition ≠ true := by
      rcases hopens with hopens | hopens
      · cases hkind : t.kind p <;>
          simp [hkind, Kind.isNamespace, Kind.isMethodDefinition] at hopens ⊢
      · simp [hopens, Kind.isMethodDefinition]
    rw [if_neg hother] at hscope
    by_contra habsent
    exact hnone p ⟨hopens, hscope.symm, fun hiff => habsent (hiff.1 hmem)⟩

/-- Two nodes of one method stand in the same scope exactly when no class, module or singleton class
in that method stands around one of them only. -/
theorem scope_eq_iff (hmethod : t.enclosingMethod? i = t.enclosingMethod? j) :
    t.nearest? scopeKinds i = t.nearest? scopeKinds j ↔ ∀ f, ¬ t.Parts f i j := by
  constructor
  · intro hsame f hparts
    have haccepts := accepts_scopeKinds_iff.2 (Or.inr hparts.opens)
    refine hparts.above_one ?_
    cases hscope : t.nearest? scopeKinds i with
    | none =>
        have hscope' := hsame.symm.trans hscope
        simp [not_mem_ancestors_of_nearest? hscope haccepts,
          not_mem_ancestors_of_nearest? hscope' haccepts]
    | some p =>
        have hscope' := hsame.symm.trans hscope
        rw [mem_ancestors_iff_of_nearest? hscope haccepts,
          mem_ancestors_iff_of_nearest? hscope' haccepts]
  · intro hnone
    have hnone' : ∀ f, ¬ t.Parts f j i := fun f hparts => hnone f (hparts.symm hmethod.symm)
    -- the scope of each node is at or above that of the other
    have hbelow : ∀ {i j p : Nat}, t.enclosingMethod? i = t.enclosingMethod? j →
        (∀ f, ¬ t.Parts f i j) → t.nearest? scopeKinds i = some p →
          ∃ q, t.nearest? scopeKinds j = some q ∧ p ∈ q :: t.ancestors q := by
      intro i j p hmethod hnone h
      have habove := scope_mem_ancestors hmethod hnone h
      have haccepts := (mem_ancestors_of_nearest? h).2
      cases hq : t.nearest? scopeKinds j with
      | none => exact absurd habove (not_mem_ancestors_of_nearest? hq haccepts)
      | some q => exact ⟨q, rfl, (mem_ancestors_iff_of_nearest? hq haccepts).1 habove⟩
    cases hi : t.nearest? scopeKinds i with
    | none =>
        cases hj : t.nearest? scopeKinds j with
        | none => rfl
        | some q =>
            obtain ⟨p, hp, -⟩ := hbelow hmethod.symm hnone' hj
            cases hi.symm.trans hp
    | some p =>
        obtain ⟨q, hq, hpq⟩ := hbelow hmethod hnone hi
        obtain ⟨p', hp', hqp⟩ := hbelow hmethod.symm hnone' hq
        cases hi.symm.trans hp'
        rw [hq]
        rcases List.mem_cons.1 hpq with rfl | hpq
        · rfl
        · rcases List.mem_cons.1 hqp with rfl | hqp
          · rfl
          · have hlt := (ancestors_gt hpq).1
            have hlt' := (ancestors_gt hqp).1
            omega

end Tree
end Syntax
end RubyIndex
