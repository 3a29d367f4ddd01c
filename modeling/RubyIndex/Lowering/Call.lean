import RubyIndex.Lowering.Declaration

/-!
# Lowering of calls

Calls, blocks, operators and element references all become sends.  The `key: value` arguments that
follow each other are gathered in one hash.
-/

namespace RubyIndex
namespace Lowering

open Concrete (Source)
open Syntax (Kind Child Leaf)

variable {m : Type → Type} {α : Type} [Monad m] [MonadStateOf Scopes m] [Builder m α]

/-! ## Arguments -/

/-- The hash of a run of pairs, if there is any. -/
def keywordHash (s : Source) (lower : Lower m α) (pairs : List Concrete.Node) : m (Option α) :=
  match pairs.head?, pairs.getLast? with
  | some first, some last => do
      let nodes ← lowerAll lower pairs
      let range : Range := ⟨(s.range first).start, (s.range last).stop⟩
      let node ← Builder.node .hash (nodes.map .node) (some range) none
      pure (some node)
  | _, _ => pure none

/-- Lowers arguments that follow a run of pairs. -/
def lowerArgumentsAfter (s : Source) (lower : Lower m α) (pairs : List Concrete.Node) :
    List Concrete.Node → m (List α)
  | [] => do
      let hash ← keywordHash s lower pairs
      pure hash.toList
  | n :: rest =>
      if n.kind = .pair then lowerArgumentsAfter s lower (pairs ++ [n]) rest
      else do
        let hash ← keywordHash s lower pairs
        let node ← lower n
        let nodes ← lowerArgumentsAfter s lower [] rest
        pure (hash.toList ++ node.toList ++ nodes)

/-- The arguments in a list. -/
def lowerArguments (s : Source) (lower : Lower m α) (list : Concrete.Node) : m (List α) :=
  lowerArgumentsAfter s lower [] list.namedChildren

/-! ## Calls and blocks -/

/-- A block, with the call it is given to. -/
def lowerBlock (s : Source) (lower : Lower m α) (block : Concrete.Node) (call : Option α)
    (outer : Concrete.Node) : m α := do
  let (parameters, body) ← lowerCallable s lower true block [block.field? .parameters]
  add s .block [.ofOption call, .node parameters, .ofOption body] outer

/-- Where a call with a block ends: behind the last of its other parts. -/
def callRange (s : Source) (n : Concrete.Node) : Range :=
  let start := (s.range n).start
  let parts := [n.field? .arguments, n.field? .method, n.field? .receiver].filterMap id
  match parts.map fun part => (s.range part).stop with
  | [] => ⟨start, start⟩
  | stop :: stops => ⟨start, stops.foldl Position.latest stop⟩

def lowerCall (s : Source) (lower : Lower m α) (n : Concrete.Node) : m α := do
  let receiver ← lowerField lower n .receiver
  let name := (n.field? .method).elim "call" s.text
  let arguments ←
    match n.field? .arguments with
    | some list => lowerArguments s lower list
    | none => pure []
  let kind := if n.hasChild .safeNavigation then Kind.safeSend else Kind.send
  let children := .ofOption receiver :: symbol name :: arguments.map .node
  match n.field? .block with
  | none => addDocumentable s kind children n
  | some block => do
      let call ← Builder.node kind children (some (callRange s n)) (some (s.startRow n))
      lowerBlock s lower block (some call) n

/-- A name on its own: a local variable, or else a call. -/
def lowerIdentifier (s : Source) (n : Concrete.Node) : m α := do
  let name := s.text n
  let scopes ← get
  if scopes.isLocal name then add s .localVar [symbol name] n
  else add s .send [absent, symbol name] n

/-! ## Operators -/

/-- Operators that are no methods. -/
def isLogical (operator : String) : Bool :=
  operator == "&&" || operator == "||" || operator == "and" || operator == "or"

def lowerBinary (s : Source) (lower : Lower m α) (n : Concrete.Node) : m α :=
  match n.field? .left, n.field? .operator, n.field? .right with
  | some left, some operator, some right => do
      let a ← lower left
      let b ← lower right
      let name := s.text operator
      if isLogical name then add s .other [.ofOption a, .ofOption b] n
      else add s .send [.ofOption a, symbol name, .ofOption b] n
  | _, _, _ => lowerGeneric s lower .other n

/-- The method behind an operator in front of its operand. -/
def unaryMethod? (operator : String) : Option String :=
  if operator == "!" || operator == "not" then some "!"
  else if operator == "-" then some "-@"
  else if operator == "+" then some "+@"
  else if operator == "~" then some "~"
  else none

def lowerUnary (s : Source) (lower : Lower m α) (n : Concrete.Node) : m α :=
  match (n.field? .operator).bind fun operator => unaryMethod? (s.text operator),
      n.field? .operand with
  | some name, some operand => do
      let node ← lower operand
      add s .send [.ofOption node, symbol name] n
  | _, _ => lowerGeneric s lower .other n

/-- The object of an element reference and its indices. -/
def lowerElement (lower : Lower m α) (n : Concrete.Node) : m (Option α × List α) := do
  let object ← lowerField lower n .object
  let indices ← lowerAll lower (n.namedChildrenExcept [n.field? .object])
  pure (object, indices)

def lowerElementReference (s : Source) (lower : Lower m α) (n : Concrete.Node) : m α := do
  let (object, indices) ← lowerElement lower n
  add s .send (.ofOption object :: symbol "[]" :: indices.map .node) n

end Lowering
end RubyIndex
