import RubyIndex.Concrete.Source

/-!
# Line indices

The offsets at which the lines of a text start, gathered once.  With the row of an offset given,
only the characters of its own line are counted.

* `LineIndex.ofSource`, the index of a text;
* `LineIndex.position?`, the position of an offset on a row.
-/

namespace RubyIndex
namespace Concrete

structure LineIndex where
  source : Source
  /-- Where each row starts. -/
  starts : List Nat

namespace LineIndex

/-- The offsets behind the newlines of a text whose first character stands at `offset`. -/
def startsFrom (offset : Nat) : Source → List Nat
  | [] => []
  | c :: s =>
      let rest := startsFrom (offset + c.utf8Size) s
      if c = '\n' then (offset + c.utf8Size) :: rest else rest

def ofSource (s : Source) : LineIndex where
  source := s
  starts := 0 :: startsFrom 0 s

/-- Where a row starts; a row that is not there starts with the text. -/
def lineStart (x : LineIndex) (row : Nat) : Nat :=
  (x.starts[row]?).getD 0

/-- The characters of a row before an offset, or the bytes when these are no whole characters. -/
def column (x : LineIndex) (row offset : Nat) : Nat :=
  match x.source.slice? (x.lineStart row) offset with
  | some chars => chars.length
  | none => offset - x.lineStart row

/-- The position of an offset on a row, unless the row is the last word. -/
def position? (x : LineIndex) (row offset : Nat) : Option Position :=
  Position.ofZeroBased? (UInt32.ofNat row) (UInt32.ofNat (x.column row offset))

end LineIndex
end Concrete
end RubyIndex
