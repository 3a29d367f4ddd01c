/-!
# Nearest 64-bit binary number of a decimal

A finite number of the format is `m * 2 ^ q` with `m < 2 ^ 53` and `-1074 ≤ q`.  A decimal is an
exact quotient of natural numbers; it is scaled to a unit `2 ^ q` that leaves 53 bits and rounded to
a whole number of such units, a half to the even neighbour.

* `roundHalfEven`, a quotient as the nearest whole number;
* `Binary64.ofQuotient`, the bits of the number nearest to a quotient;
* `Binary64.ofDecimal`, the bits of the number nearest to a decimal.
-/

namespace RubyIndex

/-- The whole number nearest to `num / den`, and the even one of two equally near. -/
def roundHalfEven (num den : Nat) : Nat :=
  let floor := num / den
  let twice := 2 * (num % den)
  if den < twice ∨ (twice = den ∧ floor % 2 = 1) then floor + 1 else floor

namespace Binary64

/-- The bits of infinity, and of all that is too large. -/
def infinity : Nat :=
  0x7FF0000000000000

/-- The exponent of the unit in which a positive quotient has 53 bits before the point, unless it is
so small that the smallest unit of the format takes its place. -/
def unitExponent (num den : Nat) : Int :=
  let bits : Int := (num.log2 : Int) - den.log2
  let fits :=
    if 0 ≤ bits then den * Nat.pow 2 bits.toNat ≤ num else den ≤ num * Nat.pow 2 (-bits).toNat
  max (if fits then bits - 52 else bits - 53) (-1074)

/-- The quotient in units of `2 ^ exponent`, rounded. -/
def significand (num den : Nat) (exponent : Int) : Nat :=
  if 0 ≤ exponent then roundHalfEven num (den * Nat.pow 2 exponent.toNat)
  else roundHalfEven (num * Nat.pow 2 (-exponent).toNat) den

/-- The bits of `m * 2 ^ q` for `m ≤ 2 ^ 53`, where `m` has 53 bits unless `q` is `-1074`.  The
leading bit of `m` is not stored but counts the exponent up by one. -/
def assemble (m : Nat) (q : Int) : Nat :=
  min infinity ((q + 1074).toNat * 0x10000000000000 + m)

/-- The bits of the number nearest to a quotient. -/
def ofQuotient (num den : Nat) : UInt64 :=
  if num = 0 then 0
  else
    let q := unitExponent num den
    UInt64.ofNat (assemble (significand num den q) q)

/-- The number of decimal digits. -/
def digitCount (n : Nat) : Nat :=
  (Nat.toDigits 10 n).length

/-- The bits of the number nearest to `digits * 10 ^ exponent`.  A value of at least `10 ^ 310` is
too large for the format and one below `10 ^ (-330)` rounds to zero, so neither is worked out. -/
def ofDecimal (digits : Nat) (exponent : Int) : UInt64 :=
  let magnitude := exponent + digitCount digits
  if digits = 0 ∨ magnitude < -329 then 0
  else if 310 < magnitude then UInt64.ofNat infinity
  else if 0 ≤ exponent then ofQuotient (digits * Nat.pow 10 exponent.toNat) 1
  else ofQuotient digits (Nat.pow 10 (-exponent).toNat)

end Binary64
end RubyIndex
