import RubyIndex.Text.Joining

/-!
# Tables

Cells are aligned to the left and padded to the width of their column, with one space on both sides.
A cell of several lines makes its row higher.

* `Table`, a header and rows;
* `Table.ruled`, with a rule below the header and bars between columns;
* `Table.boxed`, with a rule above and below every row.
-/

namespace RubyIndex
namespace Text

structure Table where
  header : List String
  rows : List (List String)
  deriving Repr

namespace Table

/-- The lines of a cell. -/
def cellLines (cell : String) : List String :=
  (cell.toList.splitOn '\n').map String.ofList

/-- The width of the widest line of a cell. -/
def cellWidth (cell : String) : Nat :=
  ((cellLines cell).map width).foldl max 0

/-- The widths of the columns. -/
def widths (t : Table) : List Nat :=
  t.rows.foldl
    (fun widths row => List.zipWith (fun w cell => max w (cellWidth cell)) widths row)
    (t.header.map cellWidth)

/-- A line of a cell in a column. -/
def padded (columnWidth : Nat) (line : String) : String :=
  " " ++ line ++ String.ofList (List.replicate (columnWidth - width line + 1) ' ')

/-- The cells of one line, by their columns. -/
def lineCells (widths : List Nat) (row : List String) (index : Nat) : List String :=
  List.zipWith (fun w cell => padded w ((cellLines cell).getD index "")) widths row

/-- The lines of a row, each as its cells. -/
def rowLines (widths : List Nat) (row : List String) : List (List String) :=
  let height := (row.map fun cell => (cellLines cell).length).foldl max 1
  (List.range height).map (lineCells widths row)

/-- The pieces of a rule, one for each column. -/
def rule (widths : List Nat) : List String :=
  widths.map fun w => String.ofList (List.replicate (w + 2) '-')

/-- A table with a rule below the header. -/
def ruled (t : Table) : String :=
  let widths := t.widths
  let line (cells : List String) : String := "|".intercalate cells
  "\n".intercalate
    ((rowLines widths t.header).map line ++ ["+".intercalate (rule widths)] ++
      t.rows.flatMap fun row => (rowLines widths row).map line)

/-- A table with rules around every row. -/
def boxed (t : Table) : String :=
  let widths := t.widths
  let border := "+" ++ "+".intercalate (rule widths) ++ "+"
  let line (cells : List String) : String := "|" ++ "|".intercalate cells ++ "|"
  "\n".intercalate
    (border :: (t.header :: t.rows).flatMap fun row =>
      (rowLines widths row).map line ++ [border])

end Table
end Text
end RubyIndex
