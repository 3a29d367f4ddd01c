import RubyIndex.Proofs.Syntax.Layout
import RubyIndex.Syntax.Cursor

/-!
# Walks node by node come to their end

From every state a cursor comes to its end, and what it comes to on the way are the nodes ahead of
that state that pass the filter.  Ahead of a stack are the nodes at and below each node on it, from
the top down.

* `Cursor.Runs`, the nodes that a cursor comes to until the end;
* `Cursor.filter_ahead`, what one step takes from the nodes ahead, and `Cursor.runs_iff`, what all
  steps together take;
* `Tree.ahead_upward` and `Tree.ahead_downward`, the nodes ahead of the two walks of a tree;
* `Tree.downward_runs_preorder`, the walk downward is the recursion, and the walk upward its dual.
-/

namespace RubyIndex
namespace Syntax

namespace Cursor

variable {σ : Type} {c : Cursor σ} {passes : Nat → Bool} {s s' : σ} {i : Nat}

/-! ## Runs -/

/-- The cursor comes to these nodes, one after the other, and then there is no more. -/
inductive Runs (c : Cursor σ) (passes : Nat → Bool) : σ → List Nat → Prop
  | done {s : σ} : c.next? passes s = none → Runs c passes s []
  | step {s s' : σ} {i : Nat} {nodes : List Nat} :
      c.next? passes s = some (i, s') → Runs c passes s' nodes → Runs c passes s (i :: nodes)

/-- The nodes ahead of a state, whatever the filter. -/
def ahead (c : Cursor σ) (s : σ) : List Nat :=
  match _h : c.advance? s with
  | none => []
  | some (i, s') => i :: c.ahead s'
termination_by c.left s
decreasing_by exact c.left_lt _h

theorem ahead_of_none (h : c.advance? s = none) : c.ahead s = [] := by
  rw [ahead]
  split
  · rfl
  · rename_i h'
    cases h.symm.trans h'

theorem ahead_of_some (h : c.advance? s = some (i, s')) : c.ahead s = i :: c.ahead s' := by
  rw [ahead]
  split
  · rename_i h'
    cases h.symm.trans h'
  · rename_i h'
    cases h.symm.trans h'
    rfl

/-- A step takes the first node ahead that passes, and those before it are passed over. -/
theorem filter_ahead (c : Cursor σ) (passes : Nat → Bool) (s : σ) :
    (c.ahead s).filter passes =
      match c.next? passes s with
      | none => []
      | some (i, s') => i :: (c.ahead s').filter passes := by
  fun_induction next? c passes s with
  | case1 s h => rw [ahead_of_none h, List.filter_nil]
  | case2 s i s' h hpass => rw [ahead_of_some h, List.filter_cons_of_pos hpass]
  | case3 s i s' h hpass ih => rw [ahead_of_some h, List.filter_cons_of_neg hpass, ih]

theorem runs_iff {nodes : List Nat} :
    c.Runs passes s nodes ↔ nodes = (c.ahead s).filter passes := by
  constructor
  · intro h
    induction h with
    | @done s hnext => rw [filter_ahead, hnext]
    | @step s s' i nodes hnext _ ih => rw [filter_ahead, hnext, ih]
  · intro h
    induction nodes generalizing s with
    | nil =>
        rw [filter_ahead] at h
        split at h
        · rename_i hnext
          exact .done hnext
        · cases h
    | cons i nodes ih =>
        rw [filter_ahead] at h
        split at h
        · cases h
        · rename_i j s' hnext
          cases h
          exact .step hnext (ih rfl)

end Cursor

namespace Tree

variable {t : Tree}

/-! ## The two walks -/

theorem ahead_upward (t : Tree) (i : Nat) : t.upwardCursor.ahead (t.parent? i) = t.ancestors i := by
  cases hparent : t.parent? i with
  | none =>
      rw [ancestors_of_no_parent hparent]
      exact Cursor.ahead_of_none rfl
  | some p =>
      have hgt := parent?_gt hparent
      rw [ancestors_of_parent hparent, ← ahead_upward t p]
      exact Cursor.ahead_of_some rfl
termination_by t.size - i
decreasing_by omega

/-- What a stack has on top is visited first. -/
theorem ahead_downward (t : Tree) (stack : Array Nat) :
    t.downwardCursor.ahead stack = t.visit stack.toList.reverse := by
  fun_induction Cursor.ahead t.downwardCursor stack with
  | case1 stack h =>
      have hempty : stack = #[] := by simpa [downwardCursor] using h
      rw [hempty]
      simp [visit]
  | case2 stack i stack' h ih =>
      rcases Option.map_eq_some_iff.1 h with ⟨j, hback, hstep⟩
      cases hstep
      rcases Array.back?_eq_some_iff.1 hback with ⟨rest, rfl⟩
      rw [ih, Array.toList_push, List.reverse_append, List.reverse_singleton,
        List.singleton_append, visit]
      simp

theorem accepts_iff {kinds : List Kind} {i : Nat} :
    t.accepts kinds i = true ↔ kinds = [] ∨ t.kind i ∈ kinds := by
  simp [accepts]

/-- Nodes that pass a filter are of one of its kinds, if it has any. -/
theorem filter_accepts (t : Tree) (kinds : List Kind) (nodes : List Nat) :
    nodes.filter (t.accepts kinds) = nodes.filter fun i => kinds = [] ∨ t.kind i ∈ kinds := by
  refine List.filter_congr ?_
  intro i _
  rw [Bool.eq_iff_iff, accepts_iff, decide_eq_true_iff]

/-- In a tree that is built without attaching a node twice, both walks come to their end.  The one
downward is the recursion along the children, filtered, and comes to no node twice; and a node is
below another when that one is above it. -/
theorem downward_runs_preorder (ht : t.Built) (kinds : List Kind) (x : Nat) :
    (∀ nodes, t.downwardCursor.Runs (t.accepts kinds) (t.pushChildren #[] x) nodes ↔
      nodes = t.descendantsOf kinds x) ∧
    t.descendantsOf kinds x = ((t.childNodes x).flatMap t.preorder).filter (fun i =>
      kinds = [] ∨ t.kind i ∈ kinds) ∧
    (t.descendantsOf kinds x).Nodup ∧
    (∀ nodes, t.upwardCursor.Runs (t.accepts kinds) (t.parent? x) nodes ↔
      nodes = t.ancestorsOf kinds x) ∧
    t.ancestorsOf kinds x = (t.ancestors x).filter (fun i => kinds = [] ∨ t.kind i ∈ kinds) ∧
    (∀ y, y ∈ t.descendantsOf [] x ↔ x ∈ t.ancestorsOf [] y) := by
  have hlinked : t.Linked := Forest.linked_of_built ht
  refine ⟨?_, ?_, (List.nodup_cons.1 (nodup_cons_descendants hlinked x)).2.filter _, ?_,
    filter_accepts t kinds _, ?_⟩
  · intro nodes
    rw [Cursor.runs_iff, ahead_downward]
    simp [descendantsOf, descendants]
  · rw [descendantsOf, descendants_eq_flatMap, filter_accepts]
  · intro nodes
    rw [Cursor.runs_iff, ahead_upward, ancestorsOf]
  · intro y
    rw [descendantsOf_nil, mem_descendants_iff hlinked, ancestorsOf]
    simp [accepts]

/-- A class with its name and, in its body, a method that holds a text. -/
def methodInClass : Term :=
  let name : Term := ⟨.const, [.leaf .nil, .leaf (.symbol "Foo")], none, none⟩
  let parameters : Term := ⟨.parameterList, [], none, none⟩
  let text : Term := ⟨.str, [.leaf (.str "x")], none, none⟩
  let method : Term :=
    ⟨.method, [.leaf (.symbol "bar"), .node parameters, .node text], none, none⟩
  ⟨.classDecl, [.node name, .leaf .nil, .node ⟨.sequence, [.node method], none, none⟩], none, none⟩

/-- Methods and texts below the class, and classes and methods above the text. -/
theorem downward_runs_methodInClass :
    methodInClass.toTree.Built ∧
      methodInClass.toTree.downwardCursor.Runs (methodInClass.toTree.accepts [.str, .method])
        (methodInClass.toTree.pushChildren #[] 5) [3, 2] ∧
      methodInClass.toTree.upwardCursor.Runs (methodInClass.toTree.accepts [.classDecl, .method])
        (methodInClass.toTree.parent? 2) [3, 5] := by
  have hbuilt := methodInClass.built_toTree
  have hbelow : methodInClass.toTree.descendantsOf [.str, .method] 5 = [3, 2] := by cbv
  have habove : methodInClass.toTree.ancestorsOf [.classDecl, .method] 2 = [3, 5] := by cbv
  have hdown := (downward_runs_preorder hbuilt [.str, .method] 5).1 [3, 2]
  have hup := (downward_runs_preorder hbuilt [.classDecl, .method] 2).2.2.2.1 [3, 5]
  exact ⟨hbuilt, hdown.2 hbelow.symm, hup.2 habove.symm⟩

end Tree
end Syntax
end RubyIndex
