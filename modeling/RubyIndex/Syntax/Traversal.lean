import RubyIndex.Syntax.Tree
import RubyIndex.Total

/-!
# Walks along a tree

* `Tree.ancestors`, from the parent of a node up to the root;
* `Tree.descendants`, below a node in pre-order, by a stack of nodes still to visit;
* `Tree.preorder`, the same order by recursion along the children;
* `Tree.nodeAt?`, the innermost node at a position.
-/

namespace RubyIndex
namespace Syntax
namespace Tree

/-- Whether a filter on kinds lets a node pass; the empty filter lets all pass. -/
def accepts (t : Tree) (kinds : List Kind) (i : Nat) : Bool :=
  kinds.isEmpty || kinds.contains (t.kind i)

/-! ## Upward -/

/-- Parent, grandparent and so on. -/
def ancestors (t : Tree) (i : Nat) : List Nat :=
  match _h : t.parent? i with
  | none => []
  | some p => p :: t.ancestors p
termination_by t.size - i
decreasing_by
  have := parent?_gt _h
  omega

theorem ancestors_of_parent {t : Tree} {i p : Nat} (h : t.parent? i = some p) :
    t.ancestors i = p :: t.ancestors p := by
  rw [ancestors]
  split
  · rename_i h'
    simp [h] at h'
  · rename_i q h'
    rw [h] at h'
    cases h'
    rfl

theorem ancestors_of_no_parent {t : Tree} {i : Nat} (h : t.parent? i = none) :
    t.ancestors i = [] := by
  rw [ancestors]
  split
  · rfl
  · rename_i q h'
    simp [h] at h'

/-- Ancestors come later in the array. -/
theorem ancestors_gt {t : Tree} {i a : Nat} (h : a ∈ t.ancestors i) : i < a ∧ a < t.size := by
  cases hp : t.parent? i with
  | none => simp [ancestors_of_no_parent hp] at h
  | some p =>
      have hgt := parent?_gt hp
      rw [ancestors_of_parent hp] at h
      rcases List.mem_cons.1 h with rfl | h
      · exact hgt
      · have := ancestors_gt h
        omega
termination_by t.size - i
decreasing_by
  have := parent?_gt hp
  omega

def ancestorsOf (t : Tree) (kinds : List Kind) (i : Nat) : List Nat :=
  (t.ancestors i).filter (t.accepts kinds)

/-- The nearest ancestor of one of the kinds. -/
def nearest? (t : Tree) (kinds : List Kind) (i : Nat) : Option Nat :=
  (t.ancestors i).find? (t.accepts kinds)

/-! ## Downward -/

def childNodesOf (t : Tree) (kinds : List Kind) (i : Nat) : List Nat :=
  (t.childNodes i).filter (t.accepts kinds)

/-- The number of nodes at and below a node. -/
def weight (t : Tree) (i : Nat) : Nat :=
  1 + total ((t.childNodes i).attach.map fun c => t.weight c.1)
termination_by i
decreasing_by exact childNodes_lt c.2

theorem weight_eq (t : Tree) (i : Nat) :
    t.weight i = 1 + total ((t.childNodes i).map t.weight) := by
  rw [weight]
  congr 2
  exact List.attach_map_val

/-- Visits the nodes of a stack and all below them, in pre-order. -/
def visit (t : Tree) : (stack : List Nat) → List Nat
  | [] => []
  | i :: stack => i :: t.visit (t.childNodes i ++ stack)
termination_by stack => total (stack.map t.weight)
decreasing_by
  simp only [List.map_append, List.map_cons, total_append, total_cons]
  have := t.weight_eq i
  omega

/-- The nodes below a node, in pre-order. -/
def descendants (t : Tree) (i : Nat) : List Nat :=
  t.visit (t.childNodes i)

def descendantsOf (t : Tree) (kinds : List Kind) (i : Nat) : List Nat :=
  (t.descendants i).filter (t.accepts kinds)

/-- The nodes at and below a node: the node, then those of each child in turn. -/
def preorder (t : Tree) (i : Nat) : List Nat :=
  i :: (t.childNodes i).attach.flatMap fun c => t.preorder c.1
termination_by i
decreasing_by exact childNodes_lt c.2

/-! ## Positions -/

/-- The last node in pre-order, from the root on, whose range holds the position. -/
def nodeAt? (t : Tree) (p : Position) : Option Nat :=
  ((t.root :: t.descendants t.root).filter fun i => t.includes i p).getLast?

end Tree
end Syntax
end RubyIndex
