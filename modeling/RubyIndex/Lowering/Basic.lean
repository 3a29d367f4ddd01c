import RubyIndex.Concrete.Source
import RubyIndex.Lowering.Scope
import RubyIndex.Syntax.Tree

/-!
# Building blocks of lowering

Lowering reads a concrete tree, builds a syntax tree from the bottom up and keeps track of local
variables on the way.  The rules for single constructs take the lowering of the nodes below as an
argument.  They hold in any monad with local scopes in which nodes can be added, whatever form the
nodes are handed around in.

* `Builder`, what the rules need of the tree that is built, and `Lower`, the lowering of nodes;
* `add`, `addDocumentable`, nodes with the range of a concrete node;
* `lowerAll`, `lowerField`, `lowerStatements`, the nodes below a construct;
* `within`, a step in a frame of its own.
-/

namespace RubyIndex
namespace Lowering

open Concrete (Source Field)
open Syntax (Kind Child Leaf)

/-- Trees that are built from the bottom up, with nodes in the form `α`. -/
class Builder (m : Type → Type) (α : outParam Type) where
  /-- Adds a node above its children.  The row it starts on is noted if comments can document it. -/
  node (kind : Kind) (children : List (Child α)) (range : Option Range)
    (documentedOn : Option Nat) : m α
  /-- The range of a node that was added before. -/
  range? (node : α) : m (Option Range)

/-- The lowering of a concrete node; some nodes, such as comments, lower to nothing. -/
abbrev Lower (m : Type → Type) (α : Type) :=
  Concrete.Node → m (Option α)

variable {m : Type → Type}

/-! ## Scopes -/

section Scopes

variable [Monad m] [MonadStateOf Scopes m]

/-- Makes a name a local variable. -/
def declare (name : String) : m Unit :=
  modify (Scopes.declare name)

/-- Makes all of some names local variables. -/
def declareAll (names : List String) : m Unit :=
  modify fun scopes => names.foldl (fun scopes name => scopes.declare name) scopes

/-- Runs a step in a frame of its own. -/
def within {α : Type} (seesOuter : Bool) (step : m α) : m α := do
  modify (Scopes.push seesOuter)
  let a ← step
  modify Scopes.pop
  pure a

end Scopes

/-! ## Nodes -/

variable {α : Type}

/-- A name as a child. -/
def symbol (name : String) : Child α :=
  .leaf (.symbol name)

/-- A child that was left out. -/
def absent : Child α :=
  .leaf .nil

/-- The text of the child with a role, empty if there is none. -/
def fieldText (s : Source) (n : Concrete.Node) (role : Field) : String :=
  (n.field? role).elim "" s.text

section Nodes

variable [Builder m α]

/-- Adds a node with the range of a concrete node. -/
def add (s : Source) (kind : Kind) (children : List (Child α)) (n : Concrete.Node) : m α :=
  Builder.node kind children (some (s.range n)) none

/-- Adds a node with the range of a concrete node, which comments above that node document. -/
def addDocumentable (s : Source) (kind : Kind) (children : List (Child α)) (n : Concrete.Node) :
    m α :=
  Builder.node kind children (some (s.range n)) (some (s.startRow n))

end Nodes

/-! ## Nodes below -/

section Below

variable [Monad m]

/-- Lowers nodes in order. -/
def lowerAll (lower : Lower m α) : List Concrete.Node → m (List α)
  | [] => pure []
  | n :: rest => do
      let node ← lower n
      let nodes ← lowerAll lower rest
      pure (node.toList ++ nodes)

/-- Lowers a node that may be missing. -/
def lowerOption (lower : Lower m α) : Option Concrete.Node → m (Option α)
  | none => pure none
  | some n => lower n

/-- Lowers the child with a role. -/
def lowerField (lower : Lower m α) (n : Concrete.Node) (role : Field) : m (Option α) :=
  lowerOption lower (n.field? role)

variable [Builder m α]

/-- A node over all constructs a concrete node consists of. -/
def lowerGeneric (s : Source) (lower : Lower m α) (kind : Kind) (n : Concrete.Node) : m α := do
  let nodes ← lowerAll lower n.namedChildren
  add s kind (nodes.map .node) n

/-- The range from the first of some statements to the last, or that of their owner. -/
def statementsRange (s : Source) (first last : α) (owner : Concrete.Node) : m Range := do
  let a ← Builder.range? first
  let b ← Builder.range? last
  match a, b with
  | some a, some b => pure ⟨a.start, b.stop⟩
  | _, _ => pure (s.range owner)

/-- Statements as one node: nothing, the one statement, or a sequence. -/
def joinStatements (s : Source) (owner : Concrete.Node) : List α → m (Option α)
  | [] => pure none
  | [statement] => pure (some statement)
  | first :: second :: rest => do
      let last := (second :: rest).getLast (List.cons_ne_nil _ _)
      let range ← statementsRange s first last owner
      let node ← Builder.node .sequence ((first :: second :: rest).map .node) (some range) none
      pure (some node)

/-- Lowers a list of statements. -/
def lowerStatements (s : Source) (lower : Lower m α) (statements : List Concrete.Node)
    (owner : Concrete.Node) : m (Option α) := do
  let nodes ← lowerAll lower statements
  joinStatements s owner nodes

end Below

end Lowering
end RubyIndex
