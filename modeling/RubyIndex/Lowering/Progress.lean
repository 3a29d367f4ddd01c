import RubyIndex.Lowering.Basic

/-!
# The state of lowering

Nodes are added to a forest one after the other and handed around by their indices.  A step fails
when it uses an index that no node has, or gives a node a second parent.

* `Progress`, the nodes and the scopes so far, and how deep lowering stands;
* `Building`, the steps that lead from one such state to the next;
* `nested`, a step one level deeper.
-/

namespace RubyIndex
namespace Lowering

open Syntax (Child Forest Kind)

/-- How far lowering has got. -/
structure Progress where
  forest : Forest
  scopes : Scopes
  /-- How many constructs are being lowered, each within the one before. -/
  depth : Nat
  /-- The nodes that comments can document, with the rows they start on. -/
  documented : Array (Nat × Nat)

/-- Nothing is lowered yet. -/
def Progress.initial : Progress :=
  ⟨.empty, .initial, 0, #[]⟩

/-- A step that adds nodes, or fails. -/
abbrev Building : Type → Type :=
  StateT Progress Option

namespace Building

instance : MonadStateOf Scopes Building where
  get := fun p => some (p.scopes, p)
  set scopes := fun p => some ((), { p with scopes := scopes })
  modifyGet f := fun p =>
    let (a, scopes) := f p.scopes
    some (a, { p with scopes := scopes })

/-- Adds a node behind all others; its index is their number. -/
def addNode (kind : Kind) (children : List (Child Nat)) (range : Option Range)
    (documentedOn : Option Nat) : Building Nat := fun p => do
  let index := p.forest.size
  let forest ← p.forest.add? kind children range
  let documented := documentedOn.elim p.documented fun row => p.documented.push (index, row)
  some (index, { p with forest := forest, documented := documented })

instance : Builder Building Nat where
  node := addNode
  range? index := fun p => some ((p.forest.nodes[index]?).bind Syntax.Node.range, p)

end Building

/-- A step one level deeper. -/
def nested {α : Type} (step : Building α) : Building α := do
  modifyThe Progress fun p => { p with depth := p.depth + 1 }
  let a ← step
  modifyThe Progress fun p => { p with depth := p.depth - 1 }
  pure a

end Lowering
end RubyIndex
