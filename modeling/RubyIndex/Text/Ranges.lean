/-!
# Tables of code points

A class of characters is given by the ranges of their code points, in order and apart from each
other, with both ends included.

* `inRanges`, whether a code point lies in a table.
-/

namespace RubyIndex
namespace Text

/-- Whether a code point lies in one of the ranges of a sorted table between two indices. -/
def searchRanges (table : Array (Nat × Nat)) (n : Nat) : (steps low high : Nat) → Bool
  | 0, _, _ => false
  | steps + 1, low, high =>
      if low < high then
        let middle := (low + high) / 2
        match table[middle]? with
        | some (first, last) =>
            if n < first then searchRanges table n steps low middle
            else if last < n then searchRanges table n steps (middle + 1) high
            else true
        | none => false
      else false

/-- Whether a code point lies in one of the ranges of a sorted table.  Each step halves the table,
so its logarithm and one more are steps enough. -/
def inRanges (table : Array (Nat × Nat)) (n : Nat) : Bool :=
  searchRanges table n (table.size.log2 + 2) 0 table.size

end Text
end RubyIndex
