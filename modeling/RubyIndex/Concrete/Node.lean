/-!
# Concrete syntax trees

The grammar's view of a text: every token and every construct is a node with a kind, a byte span
and at most one field by which its parent knows it.  Only the kinds and fields that matter here have
a name of their own.

* `Kind`, `Field`, `Node`;
* `Node.namedChildren`, `Node.field?` read a node;
* `Node.ofRows?` builds a tree from a list of its nodes in pre-order.
-/

namespace RubyIndex
namespace Concrete

/-! ## Kinds and fields -/

inductive Kind
  | comment | heredocBody | emptyStatement
  | classNode | moduleNode | singletonClass | method | singletonMethod
  | call | block | doBlock | lambda
  | identifier | constant | scopeResolution | assignment | operatorAssignment
  | selfNode | nilNode | trueNode | falseNode
  | integer | float | rational | complex
  | string | bareString | subshell | delimitedSymbol | bareSymbol | chainedString
  | heredocBeginning | simpleSymbol | hashKeySymbol
  | array | stringArray | symbolArray | hash | pair | range | regex
  | instanceVariable | classVariable | globalVariable
  | returnNode | binary | unary | elementReference
  | parenthesizedStatements | interpolation | blockArgument | exceptionVariable | forNode
  | argumentList | superclass | rightAssignmentList | bodyStatement | blockBody
  | optionalParameter | keywordParameter | splatParameter | hashSplatParameter | blockParameter
  | forwardParameter | destructuredParameter
  | safeNavigation | ellipsis
  | other
  deriving DecidableEq, Repr, Inhabited

/-- The kind behind each name of the grammar. -/
def Kind.table : List (String × Kind) :=
  [ ("comment", .comment), ("heredoc_body", .heredocBody), ("empty_statement", .emptyStatement),
    ("class", .classNode), ("module", .moduleNode), ("singleton_class", .singletonClass),
    ("method", .method), ("singleton_method", .singletonMethod),
    ("call", .call), ("block", .block), ("do_block", .doBlock), ("lambda", .lambda),
    ("identifier", .identifier), ("constant", .constant), ("scope_resolution", .scopeResolution),
    ("assignment", .assignment), ("operator_assignment", .operatorAssignment),
    ("self", .selfNode), ("nil", .nilNode), ("true", .trueNode), ("false", .falseNode),
    ("integer", .integer), ("float", .float), ("rational", .rational), ("complex", .complex),
    ("string", .string), ("bare_string", .bareString), ("subshell", .subshell),
    ("delimited_symbol", .delimitedSymbol), ("bare_symbol", .bareSymbol),
    ("chained_string", .chainedString), ("heredoc_beginning", .heredocBeginning),
    ("simple_symbol", .simpleSymbol), ("hash_key_symbol", .hashKeySymbol),
    ("array", .array), ("string_array", .stringArray), ("symbol_array", .symbolArray),
    ("hash", .hash), ("pair", .pair), ("range", .range), ("regex", .regex),
    ("instance_variable", .instanceVariable), ("class_variable", .classVariable),
    ("global_variable", .globalVariable),
    ("return", .returnNode), ("binary", .binary), ("unary", .unary),
    ("element_reference", .elementReference),
    ("parenthesized_statements", .parenthesizedStatements), ("interpolation", .interpolation),
    ("block_argument", .blockArgument), ("exception_variable", .exceptionVariable),
    ("for", .forNode), ("argument_list", .argumentList), ("superclass", .superclass),
    ("right_assignment_list", .rightAssignmentList), ("body_statement", .bodyStatement),
    ("block_body", .blockBody), ("optional_parameter", .optionalParameter),
    ("keyword_parameter", .keywordParameter), ("splat_parameter", .splatParameter),
    ("hash_splat_parameter", .hashSplatParameter), ("block_parameter", .blockParameter),
    ("forward_parameter", .forwardParameter), ("destructured_parameter", .destructuredParameter),
    ("&.", .safeNavigation), ("...", .ellipsis) ]

def Kind.ofName (name : String) : Kind :=
  (table.find? fun entry => entry.1 == name).elim .other (·.2)

/-- The role of a node in its parent. -/
inductive Field
  | name | superclass | value | parameters | object | receiver | method | arguments | block
  | body | scope | left | right | key | first | last | operator | operand | pattern
  deriving DecidableEq, Repr

def Field.table : List (String × Field) :=
  [ ("name", .name), ("superclass", .superclass), ("value", .value), ("parameters", .parameters),
    ("object", .object), ("receiver", .receiver), ("method", .method),
    ("arguments", .arguments), ("block", .block), ("body", .body), ("scope", .scope),
    ("left", .left), ("right", .right), ("key", .key), ("begin", .first), ("end", .last),
    ("operator", .operator), ("operand", .operand), ("pattern", .pattern) ]

def Field.ofName? (name : String) : Option Field :=
  (table.find? fun entry => entry.1 == name).map (·.2)

/-! ## Nodes -/

structure Node where
  id : Nat
  kind : Kind
  /-- Whether the node is a construct of the grammar and not a mere token. -/
  named : Bool
  /-- The byte offsets of the text, the last one excluded. -/
  start : Nat
  stop : Nat
  role : Option Field
  children : List Node
  deriving Repr, Inhabited

namespace Node

/-- Comments and the bodies of here-documents stand anywhere and are no part of a construct. -/
def isExtra (n : Node) : Bool :=
  n.kind = .comment || n.kind = .heredocBody

/-- The constructs a node consists of. -/
def namedChildren (n : Node) : List Node :=
  n.children.filter fun c => c.named && !c.isExtra

/-- The child with a role. -/
def field? (n : Node) (role : Field) : Option Node :=
  n.children.find? fun c => c.role = some role

/-- Whether some child is of a kind. -/
def hasChild (n : Node) (kind : Kind) : Bool :=
  n.children.any fun c => c.kind = kind

/-- The constructs of a node apart from some of its children. -/
def namedChildrenExcept (n : Node) (header : List (Option Node)) : List Node :=
  n.namedChildren.filter fun c => !(header.any fun h => h.elim false fun h => h.id == c.id)

/-- The statements of a body, or of a construct without one what is not in its header. -/
def bodyNodes (n : Node) (header : List (Option Node)) : List Node :=
  match n.field? .body with
  | some body =>
      if body.kind = .bodyStatement ∨ body.kind = .blockBody then body.namedChildren else [body]
  | none => n.namedChildrenExcept header

end Node

/-! ## Rows -/

/-- A node as a row of a table in pre-order, which names its parent by its index. -/
structure Row where
  parent : Option Nat
  kind : String
  named : Bool
  start : Nat
  stop : Nat
  field : Option String
  deriving Repr, Inhabited

/-- Takes the row at `index`, when the later rows have been put together to the trees `later`, each
with the index of its parent.  The first ones of them are the children. -/
def Node.takeRow (row : Row) (index : Nat) (later : List (Option Nat × Node)) :
    List (Option Nat × Node) :=
  let (mine, rest) := later.span fun tree => tree.1 = some index
  let node : Node :=
    { id := index
      kind := Kind.ofName row.kind
      named := row.named
      start := row.start
      stop := row.stop
      role := row.field.bind Field.ofName?
      children := mine.map (·.2) }
  (row.parent, node) :: rest

/-- The tree whose nodes are the rows. -/
def Node.ofRows? (rows : List Row) : Option Node :=
  match rows.zipIdx.foldr (fun (row, index) later => takeRow row index later) [] with
  | (none, root) :: _ => some root
  | _ => none

end Concrete
end RubyIndex
