import RubyIndex.Concrete.Comment
import RubyIndex.Lowering.Assignment
import RubyIndex.Lowering.Progress
import RubyIndex.Syntax.Literal

/-!
# Lowering of programs

Every concrete node has a rule by its kind; a node without one of its own becomes an uninterpreted
node over the nodes below.  Nodes that are nested too deeply lose what is below them.

* `lowerNode`, one rule per kind;
* `lower`, the lowering of a node at the depth where it stands, and `treeOf?`, that of a whole text;
* `Parsed.ofSource`, the tree and the comments of a text.
-/

namespace RubyIndex
namespace Lowering

open Concrete (Source)
open Syntax (Kind Child Leaf)

section Rules

variable {m : Type → Type} {α : Type} [Monad m] [MonadStateOf Scopes m] [Builder m α]

/-! ## Texts -/

/-- A piece of text in a string with interpolations. -/
def lowerPart (s : Source) (lower : Lower m α) (n : Concrete.Node) : m (Option α) :=
  if n.kind = .interpolation then lower n
  else do
    let node ← add s .str [.leaf (.str (s.text n))] n
    pure (some node)

/-- A text: one of a plain kind with its whole value, or, with interpolations, one of a dynamic kind
with its parts. -/
def lowerText (s : Source) (lower : Lower m α) (plain dynamic : Kind) (n : Concrete.Node) :
    m α :=
  if n.namedChildren.any fun part => part.kind = .interpolation then do
    let parts ← lowerAll (lowerPart s lower) n.namedChildren
    add s dynamic (parts.map .node) n
  else
    let value := String.join (n.namedChildren.map s.text)
    add s plain [.leaf (if plain = .sym then .symbol value else .str value)] n

/-- The name of a symbol or of a key of a hash. -/
def symbolName (text : String) : String :=
  match text.toList with
  | ':' :: rest => String.ofList rest
  | _ => text

/-! ## Other constructs -/

def lowerPair (s : Source) (lower : Lower m α) (n : Concrete.Node) : m α := do
  let key ← lowerField lower n .key
  let value ← lowerField lower n .value
  add s .pair [.ofOption key, .ofOption value] n

def lowerRange (s : Source) (lower : Lower m α) (n : Concrete.Node) : m α := do
  let first ← lowerField lower n .first
  let last ← lowerField lower n .last
  let kind := if n.hasChild .ellipsis then Kind.exclusiveRange else Kind.inclusiveRange
  add s kind [.ofOption first, .ofOption last] n

/-- The values behind a `return`. -/
def lowerReturned (s : Source) (lower : Lower m α) : List Concrete.Node → m (List α)
  | [] => pure []
  | n :: rest => do
      let values ←
        if n.kind = .argumentList then lowerArguments s lower n
        else do
          let node ← lower n
          pure node.toList
      let nodes ← lowerReturned s lower rest
      pure (values ++ nodes)

def lowerReturn (s : Source) (lower : Lower m α) (n : Concrete.Node) : m α := do
  let nodes ← lowerReturned s lower n.namedChildren
  add s .returnStatement (nodes.map .node) n

/-- A construct that makes the names in a target local variables. -/
def lowerDeclaring (s : Source) (lower : Lower m α) (target : Option Concrete.Node)
    (n : Concrete.Node) : m α := do
  declareAll (target.elim [] (targetNames s))
  lowerGeneric s lower .other n

/-- Lowers a concrete node that yields a node. -/
def lowerConstruct (s : Source) (lower : Lower m α) (n : Concrete.Node) : m α :=
  match n.kind with
  | .classNode => lowerClass s lower n
  | .moduleNode => lowerModule s lower n
  | .singletonClass => lowerSingletonClass s lower n
  | .method => lowerMethod s lower n
  | .singletonMethod => lowerSingletonMethod s lower n
  | .call => lowerCall s lower n
  | .block | .doBlock => lowerBlock s lower n none n
  | .lambda => within true (lowerGeneric s lower .other n)
  | .identifier => lowerIdentifier s n
  | .constant => add s .const [absent, symbol (s.text n)] n
  | .scopeResolution => lowerScopeResolution s lower n
  | .assignment => lowerAssignment s lower n
  | .operatorAssignment => lowerOperatorAssignment s lower n
  | .selfNode => add s .selfRef [] n
  | .nilNode => add s .nilLiteral [] n
  | .trueNode => add s .trueLiteral [] n
  | .falseNode => add s .falseLiteral [] n
  | .integer => add s .int [.leaf (.ofInteger (s.text n))] n
  | .float => add s .float [.leaf (.ofFloat (s.text n))] n
  | .rational => lowerGeneric s lower .rational n
  | .complex => lowerGeneric s lower .complex n
  | .string | .bareString => lowerText s lower .str .dynamicStr n
  | .subshell => lowerText s lower .shellStr .shellStr n
  | .delimitedSymbol | .bareSymbol => lowerText s lower .sym .dynamicSym n
  | .chainedString => lowerGeneric s lower .dynamicStr n
  | .heredocBeginning => add s .dynamicStr [] n
  | .simpleSymbol | .hashKeySymbol => add s .sym [symbol (symbolName (s.text n))] n
  | .array | .stringArray | .symbolArray => lowerGeneric s lower .array n
  | .hash => lowerGeneric s lower .hash n
  | .pair => lowerPair s lower n
  | .range => lowerRange s lower n
  | .regex => lowerGeneric s lower .regexp n
  | .instanceVariable => add s .instanceVar [symbol (s.text n)] n
  | .classVariable => add s .classVar [symbol (s.text n)] n
  | .globalVariable => add s .globalVar [symbol (s.text n)] n
  | .returnNode => lowerReturn s lower n
  | .binary => lowerBinary s lower n
  | .unary => lowerUnary s lower n
  | .elementReference => lowerElementReference s lower n
  | .parenthesizedStatements | .interpolation => lowerGeneric s lower .sequence n
  | .blockArgument => lowerGeneric s lower .blockPass n
  | .exceptionVariable => lowerDeclaring s lower (some n) n
  | .forNode => lowerDeclaring s lower (n.field? .pattern) n
  | _ => lowerGeneric s lower .other n

/-- Lowers a node by the rule for its kind. -/
def lowerNode (s : Source) (lower : Lower m α) (n : Concrete.Node) : m (Option α) :=
  match n.kind with
  | .comment | .heredocBody | .emptyStatement => pure none
  | _ => do
      let node ← lowerConstruct s lower n
      pure (some node)

/-- An empty node, for what is nested too deeply. -/
def cut (s : Source) (n : Concrete.Node) : m (Option α) := do
  let node ← add s .other [] n
  pure (some node)

/-- A whole text as a sequence of its statements. -/
def lowerRoot (s : Source) (lower : Lower m α) (root : Concrete.Node) : m α := do
  let nodes ← lowerAll lower root.namedChildren
  add s .sequence (nodes.map .node) root

end Rules

/-! ## Depth -/

/-- How deep constructs may be nested. -/
def maxDepth : Nat :=
  150

/-- Lowers a node, given the lowering of those one level deeper; too deep down it is left empty. -/
def lowerNested (s : Source) (lower : Lower Building Nat) (n : Concrete.Node) :
    Building (Option Nat) := do
  let p ← getThe Progress
  if maxDepth ≤ p.depth then cut s n
  else nested (lowerNode s lower n)

/-- Lowers a node with so many calls within each other.  The depth runs out before `maxDepth` calls
do, wherever it starts from. -/
def lowerCalling (s : Source) : Nat → Lower Building Nat
  | 0 => cut s
  | calls + 1 => lowerNested s (lowerCalling s calls)

/-- Lowers a node and what is below it. -/
def lower (s : Source) : Lower Building Nat :=
  lowerCalling s maxDepth

/-- The tree of a text, and which of its nodes comments can document on which rows. -/
def treeOf? (s : Source) (root : Concrete.Node) : Option (Syntax.Tree × List (Nat × Nat)) := do
  let (index, p) ← (lowerRoot s (lower s) root).run .initial
  let tree ← p.forest.rootedAt? index
  some (tree, p.documented.toList)

end Lowering

/-! ## Parsed texts -/

/-- A tree and the comments of its nodes. -/
structure Parsed where
  tree : Syntax.Tree
  comments : List (Nat × String)

namespace Parsed

/-- The comment of a node; of several the last counts. -/
def comment? (p : Parsed) (i : Nat) : Option String :=
  (p.comments.reverse.find? fun entry => entry.1 == i).map (·.2)

/-- The tree of a text and its documentation.  Lowering does not fail, so there is one. -/
def ofSource (s : Concrete.Source) (root : Concrete.Node) : Parsed :=
  let (tree, documented) := (Lowering.treeOf? s root).getD default
  let lines := Concrete.commentLines s root
  { tree := tree
    comments := Concrete.associate (Concrete.lineOn lines) documented }

end Parsed
end RubyIndex
