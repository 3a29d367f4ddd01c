import RubyIndex.Definition.Basic
import RubyIndex.Text.Table

/-!
# Listings of definitions

* `Definition.row`, a definition as a row of a table;
* `listing`, the table of definitions;
* `kindCounts`, `kindListing`, how many definitions there are of each kind.
-/

namespace RubyIndex

namespace Definition

/-- The signatures of a method, the superclass of a class. -/
def detail : Definition → String
  | ofMethod m => " | ".intercalate (m.signatures.map fun s => s.parameters ++ " -> " ++ s.returns)
  | ofClass c => c.superclass.elim "-" fun superclass => "< " ++ superclass
  | _ => "-"

/-- The file and line where a definition stands. -/
def place (d : Definition) : String :=
  d.location.elim "-" fun l =>
    let file := (l.uri.toList.splitOn '/').getLast?.getD []
    String.ofList file ++ ":" ++ toString l.range.start.line.toNat

/-- A definition as a row. -/
def row (d : Definition) : List String :=
  [d.kindName, d.qualifiedName, d.detail, d.place]

end Definition

namespace CommandLine

/-- The table of definitions. -/
def listing (definitions : List Definition) : String :=
  Text.Table.ruled ⟨["Kind", "Name", "Detail", "Location"], definitions.map Definition.row⟩

/-- The kinds of definitions in alphabetical order, with their numbers. -/
def kindCounts (definitions : List Definition) : List (String × Nat) :=
  let kinds := definitions.map Definition.kindName
  (kinds.eraseDups.mergeSort fun a b => decide (a ≤ b)).map fun kind => (kind, kinds.count kind)

/-- The table of kinds. -/
def kindListing (definitions : List Definition) : String :=
  Text.Table.boxed
    ⟨["Kind", "Count"], (kindCounts definitions).map fun (kind, n) => [kind, toString n]⟩

end CommandLine
end RubyIndex
