import RubyIndex.Name
import RubyIndex.Text.Blank

/-!
# Type expressions

The grammar that declared types are written in, with the text of each expression and the types it
stands for.  Neither makes use of the way in which such texts are read.

* `ConstantPath`, `Word`, `Content`, the parts of expressions;
* `TypeExpr`, `UnionExpr`, the expressions;
* `UnionExpr.print`, how an expression is written;
* `UnionExpr.denote`, the types it stands for, given a receiver.
-/

namespace RubyIndex
namespace Typing

/-! ## Blanks and brackets -/

/-- Any number of blank characters. -/
structure Blanks where
  text : List Char
  blank : ∀ c ∈ text, Text.isBlank c = true

def Blanks.none : Blanks :=
  ⟨[], by simp⟩

inductive Bracket
  | round
  | square
  | curly

namespace Bracket

def opening : Bracket → Char
  | round => '('
  | square => '['
  | curly => '\x7b'

def closing : Bracket → Char
  | round => ')'
  | square => ']'
  | curly => '\x7d'

/-- A text in brackets. -/
def around (b : Bracket) (text : List Char) : List Char :=
  b.opening :: text ++ [b.closing]

end Bracket

/-- Whether a character opens or closes a bracket. -/
def isBracket (c : Char) : Bool :=
  [ '(', ')', '[', ']', '\x7b', '\x7d' ].contains c

/-- What may stand between brackets: any characters, with brackets only in matching pairs. -/
inductive Content
  | done
  | char (c : Char) (plain : isBracket c = false) (rest : Content)
  | brackets (b : Bracket) (inside rest : Content)

def Content.print : Content → List Char
  | done => []
  | char c _ rest => c :: rest.print
  | brackets b inside rest => b.around inside.print ++ rest.print

/-! ## Constants -/

/-- Whether a constant may begin with a character: a capital letter, or one beyond ASCII. -/
def startsConstant (c : Char) : Bool :=
  c.isUpper || (decide (128 ≤ c.toNat) && !Text.isBlank c)

/-- Whether a constant may go on with a character. -/
def continuesConstant (c : Char) : Bool :=
  c.isAlphanum || c == '_' || (decide (128 ≤ c.toNat) && !Text.isBlank c)

structure ConstantName where
  first : Char
  rest : List Char
  starts : startsConstant first = true
  continues : ∀ c ∈ rest, continuesConstant c = true

def ConstantName.print (n : ConstantName) : List Char :=
  n.first :: n.rest

/-- One or more names, perhaps from the top level on. -/
structure ConstantPath where
  rooted : Bool
  first : ConstantName
  rest : List ConstantName

namespace ConstantPath

/-- The names, with `::` between them. -/
def name (p : ConstantPath) : List Char :=
  p.first.print ++ p.rest.flatMap fun n => "::".toList ++ n.print

def print (p : ConstantPath) : List Char :=
  (if p.rooted then "::".toList else []) ++ p.name

/-- The class object that a path stands for. -/
def printSingleton (p : ConstantPath) : List Char :=
  "singleton".toList ++ Bracket.round.around p.print

end ConstantPath

/-! ## Words -/

/-- The types that are written as one word. -/
inductive Word
  | bool | boolish | nilWord | trueWord | falseWord
  | selfWord | instanceWord | classWord
  | untyped | void | top | bot

namespace Word

def text : Word → String
  | bool => "bool"
  | boolish => "boolish"
  | nilWord => "nil"
  | trueWord => "true"
  | falseWord => "false"
  | selfWord => "self"
  | instanceWord => "instance"
  | classWord => "class"
  | untyped => "untyped"
  | void => "void"
  | top => "top"
  | bot => "bot"

def print (w : Word) : List Char :=
  w.text.toList

/-- The types of a word: fixed ones, none, or the receiver seen from its class or its instances. -/
def denote (receiver : String) : Word → List String
  | bool | boolish => ["TrueClass", "FalseClass"]
  | nilWord => ["NilClass"]
  | trueWord => ["TrueClass"]
  | falseWord => ["FalseClass"]
  | selfWord => [receiver]
  | instanceWord => [(Name.metaclassTarget? receiver).getD receiver]
  | classWord =>
      match Name.metaclassTarget? receiver with
      | some _ => ["Class"]
      | none => [Name.metaclass receiver]
  | untyped | void | top | bot => []

end Word

/-! ## Expressions -/

mutual

/-- A type that is not a union, unless in parentheses. -/
inductive TypeExpr
  | path (p : ConstantPath) (arguments : Option Content)
  | word (w : Word)
  | singleton (p : ConstantPath)
  | tuple (content : Content)
  | record (content : Content)
  | group (u : UnionExpr)
  | optional (e : TypeExpr) (gap : Blanks)

/-- One or more types, with blanks around each of them. -/
inductive UnionExpr
  | one (before : Blanks) (e : TypeExpr) (after : Blanks)
  | more (before : Blanks) (e : TypeExpr) (after : Blanks) (rest : UnionExpr)

end

mutual

def TypeExpr.print : TypeExpr → List Char
  | .path p arguments =>
      p.print ++ arguments.elim [] fun content => Bracket.square.around content.print
  | .word w => w.print
  | .singleton p => p.printSingleton
  | .tuple content => Bracket.square.around content.print
  | .record content => Bracket.curly.around content.print
  | .group u => Bracket.round.around u.print
  | .optional e gap => e.print ++ gap.text ++ [ '?' ]

def UnionExpr.print : UnionExpr → List Char
  | .one before e after => before.text ++ e.print ++ after.text
  | .more before e after rest => before.text ++ e.print ++ after.text ++ '|' :: rest.print

end

mutual

/-- The types that an expression stands for. -/
def TypeExpr.denote (receiver : String) : TypeExpr → List String
  | .path p _ => [String.ofList p.name]
  | .word w => w.denote receiver
  | .singleton p => [Name.metaclass (String.ofList p.name)]
  | .tuple _ => ["Array"]
  | .record _ => ["Hash"]
  | .group u => u.denote receiver
  | .optional e _ => e.denote receiver ++ ["NilClass"]

def UnionExpr.denote (receiver : String) : UnionExpr → List String
  | .one _ e _ => e.denote receiver
  | .more _ e _ rest => e.denote receiver ++ rest.denote receiver

end

end Typing
end RubyIndex
