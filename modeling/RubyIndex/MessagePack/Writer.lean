import RubyIndex.Bytes
import RubyIndex.Datum

/-!
# Writing MessagePack

Every value is written in its shortest form.  A form starts with a byte that tells the type and
either holds the length or says how many bytes of length follow.
-/

namespace RubyIndex
namespace MessagePack

/-- A marker and a number in the fewest of one, two and four bytes; the markers for them follow each
other. -/
def sized (marker n : Nat) : List UInt8 :=
  if n < 0x100 then UInt8.ofNat marker :: bigEndian 1 n
  else if n < 0x10000 then UInt8.ofNat (marker + 1) :: bigEndian 2 n
  else UInt8.ofNat (marker + 2) :: bigEndian 4 n

/-- A length in the marker itself, when it is below `limit`, or in two or four bytes. -/
def counted (short limit marker n : Nat) : List UInt8 :=
  if n < limit then [UInt8.ofNat (short + n)]
  else if n < 0x10000 then UInt8.ofNat marker :: bigEndian 2 n
  else UInt8.ofNat (marker + 1) :: bigEndian 4 n

/-- A natural number. -/
def writeNatural (n : Nat) : List UInt8 :=
  if n < 0x80 then [UInt8.ofNat n]
  else if n < 0x100000000 then sized 0xCC n
  else 0xCF :: bigEndian 8 n

/-- A number below zero, given as one less than its absolute value. -/
def writeNegative (n : Nat) : List UInt8 :=
  if n < 0x20 then [UInt8.ofNat (0xFF - n)]
  else if n < 0x80 then 0xD0 :: bigEndian 1 (0xFF - n)
  else if n < 0x8000 then 0xD1 :: bigEndian 2 (0xFFFF - n)
  else if n < 0x80000000 then 0xD2 :: bigEndian 4 (0xFFFFFFFF - n)
  else 0xD3 :: bigEndian 8 (0xFFFFFFFFFFFFFFFF - n)

/-- The start of a text of a number of bytes. -/
def textHead (n : Nat) : List UInt8 :=
  if n < 0x20 then [UInt8.ofNat (0xA0 + n)] else sized 0xD9 n

/-- The start of an extension with a payload of a number of bytes. -/
def extensionHead (n : Nat) : List UInt8 :=
  match n with
  | 1 => [0xD4]
  | 2 => [0xD5]
  | 4 => [0xD6]
  | 8 => [0xD7]
  | 16 => [0xD8]
  | n => sized 0xC7 n

mutual

/-- The bytes of a value.  For a garbled text stands a byte that spells no character. -/
def write : Datum → List UInt8
  | .nil => [0xC0]
  | .bool false => [0xC2]
  | .bool true => [0xC3]
  | .unsigned n => writeNatural n
  | .signed (.ofNat n) => writeNatural n
  | .signed (.negSucc n) => writeNegative n
  | .real bytes => (if bytes.length = 4 then 0xCA else 0xCB) :: bytes
  | .text s =>
      let bytes := utf8 s
      textHead bytes.length ++ bytes
  | .garbled => [0xA1, 0xFF]
  | .binary bytes => sized 0xC4 bytes.length ++ bytes
  | .list items => counted 0x90 16 0xDC items.length ++ writeAll items
  | .map entries => counted 0x80 16 0xDE entries.length ++ writeEntries entries
  | .extension tag payload => extensionHead payload.length ++ tag :: payload

def writeAll : List Datum → List UInt8
  | [] => []
  | item :: items => write item ++ writeAll items

def writeEntries : List (Datum × Datum) → List UInt8
  | [] => []
  | (key, value) :: entries => write key ++ write value ++ writeEntries entries

end

end MessagePack
end RubyIndex
