import RubyIndex.Syntax.Tree

/-!
# Terms

A term is a syntax tree that is not yet laid out in an array: each node holds its children.
Laying a term out adds the nodes of each child in turn and then the node itself, so the root comes
last.

* `Term`, `Term.size`;
* `Term.place`, a forest with a term added to it;
* `Term.toTree`, the tree of a term, and `Term.documented`, which of its nodes can be documented.
-/

namespace RubyIndex
namespace Syntax

structure Term where
  kind : Kind
  children : List (Child Term)
  /-- Nothing for a node that was not written. -/
  range : Option Range
  /-- The row of the text above which comments document the node, if any do. -/
  documentedOn : Option Nat
  deriving Repr, Inhabited

namespace Term

mutual

/-- The number of nodes. -/
def size : Term → Nat
  | ⟨_, children, _, _⟩ => sizeAll children + 1

def sizeAll : List (Child Term) → Nat
  | [] => 0
  | .leaf _ :: rest => sizeAll rest
  | .node t :: rest => size t + sizeAll rest

end

/-! ## Layout -/

/-- A forest that has grown out of another by the nodes of some children. -/
structure Placement (f : Forest) where
  forest : Forest
  /-- The children, by the indices of their nodes. -/
  children : List (Child Nat)
  /-- The indices of nodes that can be documented, with their rows. -/
  documented : List (Nat × Nat)
  grows : f.size ≤ forest.size
  children_lt : ∀ c, Child.node c ∈ children → c < forest.size

namespace Placement

/-- No children. -/
def none (f : Forest) : Placement f where
  forest := f
  children := []
  documented := []
  grows := Nat.le_refl _
  children_lt := by simp

/-- A leaf before the children. -/
def consLeaf {f : Forest} (l : Leaf) (p : Placement f) : Placement f where
  forest := p.forest
  children := .leaf l :: p.children
  documented := p.documented
  grows := p.grows
  children_lt := by
    intro c hc
    exact p.children_lt c (by simpa using hc)

/-- Children placed after others. -/
def append {f : Forest} (p : Placement f) (q : Placement p.forest) : Placement f where
  forest := q.forest
  children := p.children ++ q.children
  documented := p.documented ++ q.documented
  grows := Nat.le_trans p.grows q.grows
  children_lt := by
    intro c hc
    rcases List.mem_append.1 hc with h | h
    · exact Nat.lt_of_lt_of_le (p.children_lt c h) q.grows
    · exact q.children_lt c h

/-- One node above the children. -/
def close {f : Forest} (p : Placement f) (kind : Kind) (range : Option Range)
    (documentedOn : Option Nat) : Placement f where
  forest := p.forest.add kind p.children range p.children_lt
  children := [.node p.forest.size]
  documented := p.documented ++ (documentedOn.map fun row => (p.forest.size, row)).toList
  grows := by
    rw [Forest.size_add]
    exact Nat.le_succ_of_le p.grows
  children_lt := by
    intro c hc
    rw [Forest.size_add]
    simp only [List.mem_singleton, Child.node.injEq] at hc
    omega

end Placement

mutual

/-- Adds a term to a forest: first its children, then its root. -/
def place (f : Forest) : Term → Placement f
  | ⟨kind, children, range, documentedOn⟩ => (placeAll f children).close kind range documentedOn

def placeAll (f : Forest) : List (Child Term) → Placement f
  | [] => .none f
  | .leaf l :: rest => (placeAll f rest).consLeaf l
  | .node t :: rest =>
      let p := place f t
      p.append (placeAll p.forest rest)

end

theorem size_place_pos (f : Forest) (t : Term) : 0 < (place f t).forest.size := by
  cases t
  simp [place, Placement.close]

/-- The tree of a term. -/
def toTree (t : Term) : Tree :=
  let f := (place .empty t).forest
  { f with
    root := f.size - 1
    root_lt := Nat.sub_lt (size_place_pos .empty t) Nat.one_pos }

/-- The nodes of the tree of a term that can be documented, with the rows they stand on. -/
def documented (t : Term) : List (Nat × Nat) :=
  (place .empty t).documented

end Term
end Syntax
end RubyIndex
