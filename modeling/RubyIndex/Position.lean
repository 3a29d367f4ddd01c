/-!
# Positions, ranges and locations

Lines count from one, columns from zero in characters, and both are 32-bit words.  Positions are
ordered by line, then column; a range holds its first position and not its last.
-/

namespace RubyIndex

/-- A point of a document. -/
structure Position where
  line : UInt32
  column : UInt32
  deriving DecidableEq, Repr, Inhabited

namespace Position

instance : LT Position where
  lt a b := a.line < b.line ∨ (a.line = b.line ∧ a.column < b.column)

instance : LE Position where
  le a b := a < b ∨ a = b

instance (a b : Position) : Decidable (a < b) :=
  inferInstanceAs (Decidable (a.line < b.line ∨ (a.line = b.line ∧ a.column < b.column)))

instance (a b : Position) : Decidable (a ≤ b) :=
  inferInstanceAs (Decidable (a < b ∨ a = b))

/-- The order as a comparison. -/
def compare (a b : Position) : Ordering :=
  if a < b then .lt else if a = b then .eq else .gt

/-- The later of two positions. -/
def latest (a b : Position) : Position :=
  if a ≤ b then b else a

/-- The position for a line counted from zero, unless that line is the last word. -/
def ofZeroBased? (line character : UInt32) : Option Position :=
  if line.toNat + 1 < UInt32.size then some ⟨line + 1, character⟩ else none

/-- The line counted from zero; line zero stays zero. -/
def zeroBasedLine (p : Position) : UInt32 :=
  if p.line = 0 then 0 else p.line - 1

/-- Written `line:column`. -/
def display (p : Position) : String :=
  s!"{p.line.toNat}:{p.column.toNat}"

end Position

/-- The positions from `start` up to, and without, `stop`. -/
structure Range where
  start : Position
  stop : Position
  deriving DecidableEq, Repr, Inhabited

namespace Range

/-- Whether `inner` lies within `outer`. -/
def contains (outer inner : Range) : Bool :=
  decide (outer.start ≤ inner.start) && decide (inner.stop ≤ outer.stop)

/-- Whether a position lies in the range. -/
def includes (r : Range) (p : Position) : Bool :=
  decide (r.start ≤ p) && decide (p < r.stop)

/-- Written `start-stop`. -/
def display (r : Range) : String :=
  r.start.display ++ "-" ++ r.stop.display

end Range

/-- Where in which document something was declared. -/
structure Location where
  range : Range
  uri : String
  deriving DecidableEq, Repr, Inhabited

end RubyIndex
