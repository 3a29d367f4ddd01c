import RubyIndex.Syntax.Traversal

/-!
# Walks node by node

A walk can be taken one node at a time, from a state that holds what is still to come.  The way
upward needs the next node only; the way downward keeps a stack, on which the children of each node
are put in its place.

* `Cursor`, a way to go on from one state to the next, and `Cursor.next?`, on to the next node that
  passes a filter;
* `Tree.upwardCursor` and `Tree.downwardCursor`, the cursors of a tree.
-/

namespace RubyIndex
namespace Syntax

/-- A step leads to a node and a state with less left to do, or there is no more node. -/
structure Cursor (σ : Type) where
  advance? : σ → Option (Nat × σ)
  left : σ → Nat
  left_lt : ∀ {s s' : σ} {i : Nat}, advance? s = some (i, s') → left s' < left s

/-- The next node that passes, and the state behind it. -/
def Cursor.next? {σ : Type} (c : Cursor σ) (passes : Nat → Bool) (s : σ) : Option (Nat × σ) :=
  match _h : c.advance? s with
  | none => none
  | some (i, s') => if passes i then some (i, s') else c.next? passes s'
termination_by c.left s
decreasing_by exact c.left_lt _h

namespace Tree

/-! ## Upward -/

/-- Steps from a node to its parent. -/
def upwardCursor (t : Tree) : Cursor (Option Nat) where
  advance? node := node.map fun i => (i, t.parent? i)
  left node := node.elim 0 fun i => t.size - i + 1
  left_lt := by
    intro node node' i h
    rcases Option.map_eq_some_iff.1 h with ⟨j, rfl, hstep⟩
    cases hstep
    cases hparent : t.parent? i with
    | none => exact Nat.succ_pos _
    | some p =>
        have hgt := parent?_gt hparent
        simp only [Option.elim_some]
        omega

/-! ## Downward -/

/-- Turns around what stands on a stack above its first entries. -/
def reverseAbove (count : Nat) (stack : Array Nat) : Array Nat :=
  stack.take count ++ (stack.drop count).reverse

/-- Puts the children of a node on a stack and turns them around, so that the first is on top. -/
def pushChildren (t : Tree) (stack : Array Nat) (i : Nat) : Array Nat :=
  reverseAbove stack.size (stack ++ (t.childNodes i).toArray)

@[simp] theorem toList_pushChildren (t : Tree) (stack : Array Nat) (i : Nat) :
    (t.pushChildren stack i).toList = stack.toList ++ (t.childNodes i).reverse := by
  simp [pushChildren, reverseAbove]

/-- Takes a node from the top of a stack and puts its children there. -/
def downwardCursor (t : Tree) : Cursor (Array Nat) where
  advance? stack := stack.back?.map fun i => (i, t.pushChildren stack.pop i)
  left stack := total (stack.toList.map t.weight)
  left_lt := by
    intro stack stack' i h
    rcases Option.map_eq_some_iff.1 h with ⟨j, hback, hstep⟩
    cases hstep
    rcases Array.back?_eq_some_iff.1 hback with ⟨rest, rfl⟩
    -- the children weigh less than the node whose place they take
    have hweight := t.weight_eq i
    simp only [toList_pushChildren, Array.pop_push, Array.toList_push,
      List.map_append, List.map_reverse, total_append, total_reverse, List.map_cons, List.map_nil,
      total_cons, total_nil]
    omega

end Tree
end Syntax
end RubyIndex
