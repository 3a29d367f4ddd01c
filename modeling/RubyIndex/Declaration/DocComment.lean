import RubyIndex.Definition.Basic
import RubyIndex.Text.Blank
import RubyIndex.Text.Split
import RubyIndex.Text.Word

/-!
# Doc comments

A line of a doc comment is a parameter tag, a return tag, some other tag or free text.

* `@param name [types]` and `@param [types] name` declare the types of a parameter;
* `@return [types]` declares return types;
* any other line whose first character is `@` is ignored;
* the remaining lines are the description.

`DocComment.parse` reads a comment, `splitTypes` a list of types between brackets.
-/

namespace RubyIndex
namespace Declaration

/-! ## Type lists -/

/-- The brackets that keep a comma from ending a type. -/
def typeBrackets : Text.Brackets :=
  ⟨[ '<', '(', '\x7b', '[' ], [ '>', ')', '\x7d', ']' ]⟩

/-- A type as signatures write it: `Array<A>` is `Array[A]`, and `Boolean` is `bool`. -/
def signatureType (type : List Char) : List Char :=
  if type = "Boolean".toList then "bool".toList
  else type.map fun c => if c = '<' then '[' else if c = '>' then ']' else c

/-- The types of a list, cut at the commas outside brackets. -/
def splitTypes (types : List Char) : List String :=
  (((Text.splitTop typeBrackets ',' types).map fun part => signatureType (Text.trim part)).filter
    fun part => !part.isEmpty).map String.ofList

/-! ## Tags -/

/-- At least one blank character, all of them dropped. -/
def blanks? (s : List Char) : Option (List Char) :=
  match s with
  | [] => none
  | c :: rest => if Text.isBlank c then some (rest.dropWhile Text.isBlank) else none

/-- A text between brackets, which ends at the first closing one. -/
def bracketed? (s : List Char) : Option (List Char × List Char) :=
  match s with
  | '[' :: rest =>
      match Text.cutAt (· == ']') rest with
      | (inner, _ :: after) => some (inner, after)
      | (_, []) => none
  | _ => none

/-- At least one word character, as many as there are. -/
def word? (s : List Char) : Option (List Char × List Char) :=
  match s.span Text.isWord with
  | ([], _) => none
  | found => some found

/-- What follows `@tag` and blanks. -/
def tag? (tag : String) (line : List Char) : Option (List Char) :=
  (tag.toList.isPrefixOf? line).bind blanks?

/-- A parameter tag with its types in front of the name. -/
def typesFirst? (s : List Char) : Option (List Char × List Char) := do
  let (types, rest) ← bracketed? s
  let rest ← blanks? rest
  let (name, _) ← word? rest
  some (name, types)

/-- A parameter tag with its types behind the name. -/
def nameFirst? (s : List Char) : Option (List Char × List Char) := do
  let (name, rest) ← word? s
  let rest ← blanks? rest
  let (types, _) ← bracketed? rest
  some (name, types)

/-- The parameter a trimmed line declares. -/
def parameterTag? (line : List Char) : Option Parameter := do
  let rest ← tag? "@param" line
  let (name, types) ← (typesFirst? rest).orElse fun _ => nameFirst? rest
  some ⟨String.ofList name, splitTypes types⟩

/-- The return types a trimmed line declares. -/
def returnTag? (line : List Char) : Option (List String) := do
  let rest ← tag? "@return" line
  let (types, _) ← bracketed? rest
  some (splitTypes types)

/-! ## Comments -/

/-- What one line of a comment says. -/
inductive Line
  | parameter (declared : Parameter)
  | returns (types : List String)
  | otherTag
  | text (line : List Char)
  deriving DecidableEq, Repr

def Line.read (line : List Char) : Line :=
  let trimmed := Text.trim line
  match parameterTag? trimmed, returnTag? trimmed with
  | some declared, _ => .parameter declared
  | none, some types => .returns types
  | none, none => if trimmed.head? = some '@' then .otherTag else .text line

def Line.parameter? : Line → Option Parameter
  | .parameter declared => some declared
  | _ => none

def Line.returnTypes : Line → List String
  | .returns types => types
  | _ => []

def Line.text? : Line → Option (List Char)
  | .text line => some line
  | _ => none

structure DocComment where
  description : Option String := none
  returnTypes : List String := []
  parameters : List Parameter := []
  deriving DecidableEq, Repr, Inhabited

namespace DocComment

/-- What the lines of a comment say together; an empty description is none. -/
def ofLines (lines : List Line) : DocComment where
  description :=
    let text := Text.trim (Text.joinWith [ '\n' ] (lines.filterMap Line.text?))
    if text.isEmpty then none else some (String.ofList text)
  returnTypes := lines.flatMap Line.returnTypes
  parameters := lines.filterMap Line.parameter?

def parse (comment : Option String) : DocComment :=
  match comment with
  | none => {}
  | some text => ofLines ((Text.lines text.toList).map Line.read)

end DocComment
end Declaration
end RubyIndex
