/-!
# Bytes

Numbers of a fixed number of bytes, and the first bytes of a list.

* `bigEndian`, `ofBigEndian`, `littleEndian`, `ofLittleEndian`;
* `splitBytes?`, a number of bytes and the rest;
* `utf8`, `ofUtf8?`, the bytes of a text.
-/

namespace RubyIndex

/-- How many numbers there are of some bytes. -/
def byteBound : (count : Nat) → Nat
  | 0 => 1
  | count + 1 => 256 * byteBound count

/-- The lowest bytes of a number, lowest first. -/
def littleEndian : (count : Nat) → Nat → List UInt8
  | 0, _ => []
  | count + 1, n => UInt8.ofNat (n % 256) :: littleEndian count (n / 256)

/-- The number whose bytes are given, lowest first. -/
def ofLittleEndian : List UInt8 → Nat
  | [] => 0
  | b :: rest => b.toNat + 256 * ofLittleEndian rest

/-- The lowest bytes of a number, highest first. -/
def bigEndian (count n : Nat) : List UInt8 :=
  (littleEndian count n).reverse

/-- The number whose bytes are given, highest first. -/
def ofBigEndian (bytes : List UInt8) : Nat :=
  ofLittleEndian bytes.reverse

@[simp] theorem length_littleEndian (count n : Nat) : (littleEndian count n).length = count := by
  induction count generalizing n with
  | zero => rfl
  | succ count ih => simp [littleEndian, ih]

@[simp] theorem length_bigEndian (count n : Nat) : (bigEndian count n).length = count := by
  simp [bigEndian]

theorem ofLittleEndian_littleEndian {count n : Nat} (h : n < byteBound count) :
    ofLittleEndian (littleEndian count n) = n := by
  induction count generalizing n with
  | zero =>
      have : n = 0 := by
        simp only [byteBound] at h
        omega
      simp [littleEndian, ofLittleEndian, this]
  | succ count ih =>
      have hdiv : n / 256 < byteBound count := by
        simp only [byteBound] at h
        omega
      simp only [littleEndian, ofLittleEndian, ih hdiv, UInt8.toNat_ofNat']
      omega

theorem ofBigEndian_bigEndian {count n : Nat} (h : n < byteBound count) :
    ofBigEndian (bigEndian count n) = n := by
  simp [ofBigEndian, bigEndian, ofLittleEndian_littleEndian h]

/-- The first bytes and the rest, if there are that many. -/
def splitBytes? : Nat → List UInt8 → Option (List UInt8 × List UInt8)
  | 0, bytes => some ([], bytes)
  | _ + 1, [] => none
  | n + 1, b :: bytes => (splitBytes? n bytes).map fun (first, rest) => (b :: first, rest)

theorem splitBytes?_append (first rest : List UInt8) :
    splitBytes? first.length (first ++ rest) = some (first, rest) := by
  induction first with
  | nil => rfl
  | cons b first ih => simp [splitBytes?, ih]

/-! ## Texts -/

/-- The UTF-8 form of a text. -/
def utf8 (s : String) : List UInt8 :=
  s.toUTF8.toList

/-- The text with a UTF-8 form. -/
def ofUtf8? (bytes : List UInt8) : Option String :=
  String.fromUTF8? (ByteArray.mk bytes.toArray)

end RubyIndex
