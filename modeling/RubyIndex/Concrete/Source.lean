import RubyIndex.Position
import RubyIndex.Text.Blank
import RubyIndex.Concrete.Node
import RubyIndex.Total

/-!
# Source texts

Concrete nodes point into a text by byte offsets of its UTF-8 form.  This file turns offsets into
text and positions by walking along the characters.

* `Source.slice?`, the text between two offsets;
* `Source.row`, `Source.position`, the line and the position of an offset;
* `Source.text`, `Source.range`, `Source.startsLine` of a node.
-/

namespace RubyIndex
namespace Concrete

abbrev Source := List Char

namespace Source

/-! ## Offsets -/

/-- The characters from a byte offset on, if it lies between two characters. -/
def dropBytes? : Nat → Source → Option Source
  | 0, s => some s
  | _ + 1, [] => none
  | n + 1, c :: s => if c.utf8Size ≤ n + 1 then dropBytes? (n + 1 - c.utf8Size) s else none

/-- The characters up to a byte offset, if it lies between two characters. -/
def takeBytes? : Nat → Source → Option Source
  | 0, _ => some []
  | _ + 1, [] => none
  | n + 1, c :: s =>
      if c.utf8Size ≤ n + 1 then (takeBytes? (n + 1 - c.utf8Size) s).map (c :: ·) else none

/-- The text between two offsets, if they are in order and lie between characters. -/
def slice? (s : Source) (start stop : Nat) : Option Source :=
  if start ≤ stop then (dropBytes? start s).bind (takeBytes? (stop - start)) else none

/-- The number of newlines before an offset. -/
def row : Nat → Source → Nat
  | _, [] => 0
  | n, c :: s =>
      if n = 0 then 0
      else (if c = '\n' then 1 else 0) + row (n - c.utf8Size) s

/-- The characters of the last line before an offset, and whether the offset lies between two
characters; `line` is what that line holds so far, last character first. -/
def lineBefore (line : Source) : Nat → Source → Source × Nat
  | n, [] => (line.reverse, n)
  | n, c :: s =>
      if n = 0 then (line.reverse, 0)
      else if c.utf8Size ≤ n then
        lineBefore (if c = '\n' then [] else c :: line) (n - c.utf8Size) s
      else (line.reverse, n)

/-- The column of an offset: characters since the line began, or bytes when the offset does not lie
between two characters. -/
def column (s : Source) (offset : Nat) : Nat :=
  match lineBefore [] offset s with
  | (line, 0) => line.length
  | (line, excess) => total (line.map Char.utf8Size) + excess

/-- The position of an offset. -/
def position (s : Source) (offset : Nat) : Position :=
  ⟨UInt32.ofNat (row offset s) + 1, UInt32.ofNat (column s offset)⟩

/-! ## Nodes -/

/-- The text of a node, empty when its offsets do not lie between characters. -/
def text (s : Source) (n : Node) : String :=
  String.ofList ((s.slice? n.start n.stop).getD [])

def range (s : Source) (n : Node) : Range :=
  ⟨s.position n.start, s.position n.stop⟩

/-- The row a node starts on. -/
def startRow (s : Source) (n : Node) : Nat :=
  row n.start s

/-- Whether a node starts between two characters with only blanks before it on its line. -/
def startsLine (s : Source) (n : Node) : Bool :=
  match lineBefore [] n.start s with
  | (line, 0) => line.all Text.isBlank
  | _ => false

end Source
end Concrete
end RubyIndex
