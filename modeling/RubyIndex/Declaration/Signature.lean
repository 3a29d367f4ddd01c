import RubyIndex.Definition.Basic
import RubyIndex.Syntax.Naming

/-!
# Signatures

A parameter list is shown as `(String name, ?limit, *rest, key:, ?opt:, **kw, &block)`, with the
types that a doc comment declares for a parameter.

* `renderParameter`, one entry of the list;
* `renderParameters`, the whole list;
* `signatures`, one signature per return type.
-/

namespace RubyIndex
namespace Declaration

open Syntax (Kind Tree)

/-- The types declared for a name, as a union; nothing when there are none. -/
def declaredTypes? (declared : List Parameter) (name : String) : Option String :=
  if name = "" then none
  else
    ((declared.find? fun p => p.name == name).map fun p => " | ".intercalate p.types).filter
      fun types => types ≠ ""

/-- A parameter that is given by its place: its types stand before its name. -/
def positional (mark name : String) (types : Option String) : String :=
  match types with
  | some types => mark ++ types ++ " " ++ name
  | none => mark ++ name

/-- A parameter that is given by its name: its types stand behind it. -/
def keyword (mark name : String) (types : Option String) : String :=
  match types with
  | some types => mark ++ name ++ ": " ++ types
  | none => mark ++ name ++ ":"

/-- A parameter of a kind. -/
def renderKind (kind : Kind) (name : String) (types : Option String) : String :=
  match kind with
  | .parameter => positional "" name types
  | .optionalParameter => positional "?" name types
  | .restParameter => positional "*" name types
  | .keywordParameter => keyword "" name types
  | .optionalKeyword => keyword "?" name types
  | .restKeywords => positional "**" name types
  | .blockParameter => positional "&" name types
  | .forwardedParameters => "..."
  | _ => name

def renderParameter (t : Tree) (declared : List Parameter) (i : Nat) : String :=
  let name := (t.name? i).getD ""
  renderKind (t.kind i) name (declaredTypes? declared name)

/-- The parameters of a method definition. -/
def renderParameters (t : Tree) (declared : List Parameter) (parameters : List Nat) : String :=
  "(" ++ ", ".intercalate (parameters.map (renderParameter t declared)) ++ ")"

/-- What a method returns when nothing is declared. -/
def untyped : String :=
  "untyped"

/-- One signature for each declared return type. -/
def signatures (parameters : String) (returnTypes : List String) : List Signature :=
  (if returnTypes.isEmpty then [untyped] else returnTypes).map fun type => ⟨parameters, type⟩

end Declaration
end RubyIndex
