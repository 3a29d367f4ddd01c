import RubyIndex.Number.Binary64
import RubyIndex.Syntax.Tree

/-!
# Number literals

Underscores between digits do not count.  A literal whose value does not fit the leaf for it is kept
as text.

* `Literal.radixOf`, the radix of an integer literal and its digits;
* `Literal.signed64?`, digits in a radix as a signed 64-bit integer;
* `Leaf.ofInteger`, `Leaf.ofFloat`, the leaves of literals.
-/

namespace RubyIndex
namespace Syntax
namespace Literal

/-- A literal without its underscores. -/
def dropUnderscores (text : List Char) : List Char :=
  text.filter (· != '_')

/-! ## Integers -/

/-- The value of a digit; the letters of larger radices are lower case. -/
def digitValue (c : Char) : Option Nat :=
  if c.isDigit then some (c.toNat - '0'.toNat)
  else if c.isLower then some (c.toNat - 'a'.toNat + 10)
  else none

/-- The value of digits that follow on digits worth `value`. -/
def accumulate (radix : Nat) (value : Nat) : List Char → Option Nat
  | [] => some value
  | c :: rest =>
      (digitValue c).bind fun d =>
        if d < radix then accumulate radix (radix * value + d) rest else none

/-- The value of one or more digits. -/
def natural? (radix : Nat) (digits : List Char) : Option Nat :=
  if digits.isEmpty then none else accumulate radix 0 digits

/-- The number of integers of 64 bits that are not negative. -/
def bound64 : Nat :=
  0x8000000000000000

/-- The value of digits behind an optional sign, if it fits 64 bits. -/
def signed64? (radix : Nat) : List Char → Option Int
  | '+' :: digits => (natural? radix digits).bind fun n => if n < bound64 then some n else none
  | '-' :: digits => (natural? radix digits).bind fun n => if n ≤ bound64 then some (-n) else none
  | digits => (natural? radix digits).bind fun n => if n < bound64 then some n else none

/-- The radix a lower-case literal is written in, and what stands behind the mark for it. -/
def radixOf : List Char → Nat × List Char
  | '0' :: 'x' :: digits => (16, digits)
  | '0' :: 'b' :: digits => (2, digits)
  | '0' :: 'o' :: digits => (8, digits)
  | '0' :: d :: digits => (8, d :: digits)
  | digits => (10, digits)

/-! ## Floats -/

/-- A decimal: a whole number of powers of ten. -/
structure Decimal where
  digits : Nat
  exponent : Int
  deriving DecidableEq, Repr

/-- The exponent part of a literal: nothing, or a mark and digits behind an optional sign. -/
def exponent? : List Char → Option Int
  | [] => some 0
  | mark :: rest =>
      if mark = 'e' ∨ mark = 'E' then
        match rest with
        | '+' :: digits => (natural? 10 digits).map Int.ofNat
        | '-' :: digits => (natural? 10 digits).map fun n => -n
        | digits => (natural? 10 digits).map Int.ofNat
      else none

/-- A literal of digits with an optional point and exponent. -/
def decimal? (text : List Char) : Option Decimal :=
  let whole := text.takeWhile Char.isDigit
  let rest := text.dropWhile Char.isDigit
  let (fraction, rest) :=
    match rest with
    | '.' :: tail => (tail.takeWhile Char.isDigit, tail.dropWhile Char.isDigit)
    | _ => ([], rest)
  (natural? 10 (whole ++ fraction)).bind fun digits =>
    (exponent? rest).map fun exponent => ⟨digits, exponent - fraction.length⟩

end Literal

/-! ## Leaves -/

/-- The leaf of an integer literal: its value, or its text when the value does not fit. -/
def Leaf.ofInteger (text : String) : Leaf :=
  let digits := Literal.dropUnderscores text.toList
  let (radix, rest) := Literal.radixOf (digits.map Char.toLower)
  match Literal.signed64? radix rest with
  | some value => .integer value
  | none => .str (String.ofList digits)

/-- The leaf of a float literal: the nearest number, or the text of what is no decimal. -/
def Leaf.ofFloat (text : String) : Leaf :=
  let written := Literal.dropUnderscores text.toList
  match Literal.decimal? written with
  | some d => .float (Binary64.ofDecimal d.digits d.exponent)
  | none => .str (String.ofList written)

end Syntax
end RubyIndex
