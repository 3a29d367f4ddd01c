import RubyIndex.Concrete.Source

/-!
# Comments above declarations

A whole-line comment is a `#` comment with nothing before it on its line.  A declaration is
documented by the longest run of such lines that ends on the row above it.

* `commentLines`, the whole-line comments of a tree by their rows;
* `linesUpward`, `runAbove`, the run that ends above a row, read upward and put in order;
* `associate`, the comments of documented nodes.
-/

namespace RubyIndex
namespace Concrete

/-- The text of a comment behind its `#` and one space. -/
def commentBody? (text : List Char) : Option (List Char) :=
  match text with
  | '#' :: ' ' :: body => some (Text.trimEnd body)
  | '#' :: body => some (Text.trimEnd body)
  | _ => none

mutual

/-- The whole-line comments at and below a node, each with its row. -/
def commentLines (s : Source) : Node → List (Nat × String)
  | ⟨id, kind, named, start, stop, role, children⟩ =>
      if kind = .comment then
        let n : Node := ⟨id, kind, named, start, stop, role, children⟩
        if s.startsLine n then
          ((commentBody? (s.text n).toList).map fun body =>
            (s.startRow n, String.ofList body)).toList
        else []
      else commentLinesOf s children

def commentLinesOf (s : Source) : List Node → List (Nat × String)
  | [] => []
  | n :: rest => commentLines s n ++ commentLinesOf s rest

end

/-- The comment line on a row. -/
def lineOn (lines : List (Nat × String)) (row : Nat) : Option String :=
  (lines.find? fun line => line.1 == row).map (·.2)

/-- The comment lines above a row, nearest first, up to a row that holds none. -/
def linesUpward (lineAt : Nat → Option String) : Nat → List String
  | 0 => []
  | row + 1 =>
      match lineAt row with
      | some line => line :: linesUpward lineAt row
      | none => []

/-- The run of comment lines that ends just above a row, in order. -/
def runAbove (lineAt : Nat → Option String) (row : Nat) : List String :=
  (linesUpward lineAt row).reverse

/-- The comments of nodes that stand on given rows. -/
def associate (lineAt : Nat → Option String) (documented : List (Nat × Nat)) :
    List (Nat × String) :=
  documented.filterMap fun (node, row) =>
    match runAbove lineAt row with
    | [] => none
    | run => some (node, "\n".intercalate run)

end Concrete
end RubyIndex
