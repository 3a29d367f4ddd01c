import RubyIndex.Bytes
import RubyIndex.Datum

/-!
# Reading MessagePack

A value is read from the front of the bytes; the rest is given back.  Values may be nested to a
fixed depth.

* `Reader`, from bytes to a value and the rest;
* `readItems`, `readEntries`, a number of values or pairs;
* `readWithin`, a value of bounded depth;
* `read?`, a value with the depth that documents may have.
-/

namespace RubyIndex
namespace MessagePack

/-- Takes a value off the front of the bytes. -/
abbrev Reader (α : Type) := StateT (List UInt8) Option α

/-! ## Parts -/

/-- A number of bytes. -/
def takeBytes (n : Nat) : Reader (List UInt8) :=
  fun bytes => splitBytes? n bytes

/-- One byte. -/
def takeByte : Reader UInt8
  | [] => none
  | b :: bytes => some (b, bytes)

/-- A number of some bytes. -/
def takeNatural (count : Nat) : Reader Nat := do
  let bytes ← takeBytes count
  pure (ofBigEndian bytes)

/-- A number of some bytes, of which the upper half stands for negative ones. -/
def takeSigned (count : Nat) : Reader Int := do
  let n ← takeNatural count
  pure (if 2 * n < byteBound count then (n : Int) else (n : Int) - byteBound count)

/-- A text of a number of bytes. -/
def takeText (n : Nat) : Reader Datum := do
  let bytes ← takeBytes n
  pure (match ofUtf8? bytes with
    | some s => .text s
    | none => .garbled)

/-- An extension with a payload of a number of bytes. -/
def takeExtension (n : Nat) : Reader Datum := do
  let tag ← takeByte
  let payload ← takeBytes n
  pure (.extension tag payload)

/-! ## Containers -/

/-- A number of values. -/
def readItems (value : Reader Datum) : Nat → Reader (List Datum)
  | 0 => pure []
  | n + 1 => do
      let item ← value
      let items ← readItems value n
      pure (item :: items)

/-- A number of keys and values. -/
def readEntries (value : Reader Datum) : Nat → Reader (List (Datum × Datum))
  | 0 => pure []
  | n + 1 => do
      let key ← value
      let item ← value
      let entries ← readEntries value n
      pure ((key, item) :: entries)

/-- What the first byte of a value says about the rest. -/
inductive Form
  | value (d : Datum)
  | unsigned (width : Nat)
  | signed (width : Nat)
  | real (width : Nat)
  | text (length : Nat)
  | sizedText (width : Nat)
  | sizedBinary (width : Nat)
  | list (length : Nat)
  | sizedList (width : Nat)
  | map (length : Nat)
  | sizedMap (width : Nat)
  | extension (length : Nat)
  | sizedExtension (width : Nat)

/-- The form a first byte announces; one byte announces none. -/
def Form.ofByte? (b : UInt8) : Option Form :=
  let n := b.toNat
  if n < 0x80 then some (.value (.unsigned n))
  else if n < 0x90 then some (.map (n - 0x80))
  else if n < 0xA0 then some (.list (n - 0x90))
  else if n < 0xC0 then some (.text (n - 0xA0))
  else if 0xE0 ≤ n then some (.value (.signed ((n : Int) - 256)))
  else
    match n with
    | 0xC0 => some (.value .nil)
    | 0xC2 => some (.value (.bool false))
    | 0xC3 => some (.value (.bool true))
    | 0xC4 => some (.sizedBinary 1)
    | 0xC5 => some (.sizedBinary 2)
    | 0xC6 => some (.sizedBinary 4)
    | 0xC7 => some (.sizedExtension 1)
    | 0xC8 => some (.sizedExtension 2)
    | 0xC9 => some (.sizedExtension 4)
    | 0xCA => some (.real 4)
    | 0xCB => some (.real 8)
    | 0xCC => some (.unsigned 1)
    | 0xCD => some (.unsigned 2)
    | 0xCE => some (.unsigned 4)
    | 0xCF => some (.unsigned 8)
    | 0xD0 => some (.signed 1)
    | 0xD1 => some (.signed 2)
    | 0xD2 => some (.signed 4)
    | 0xD3 => some (.signed 8)
    | 0xD4 => some (.extension 1)
    | 0xD5 => some (.extension 2)
    | 0xD6 => some (.extension 4)
    | 0xD7 => some (.extension 8)
    | 0xD8 => some (.extension 16)
    | 0xD9 => some (.sizedText 1)
    | 0xDA => some (.sizedText 2)
    | 0xDB => some (.sizedText 4)
    | 0xDC => some (.sizedList 2)
    | 0xDD => some (.sizedList 4)
    | 0xDE => some (.sizedMap 2)
    | 0xDF => some (.sizedMap 4)
    | _ => none

/-- The rest of a value of a form; `inner` reads the values inside, if any may follow. -/
def readForm (inner : Option (Reader Datum)) : Form → Reader Datum
  | .value d => pure d
  | .unsigned width => .unsigned <$> takeNatural width
  | .signed width => .signed <$> takeSigned width
  | .real width => .real <$> takeBytes width
  | .text length => takeText length
  | .sizedText width => do takeText (← takeNatural width)
  | .sizedBinary width => do return .binary (← takeBytes (← takeNatural width))
  | .list length => do return .list (← readItems (← inner) length)
  | .sizedList width => do
      let length ← takeNatural width
      return .list (← readItems (← inner) length)
  | .map length => do return .map (← readEntries (← inner) length)
  | .sizedMap width => do
      let length ← takeNatural width
      return .map (← readEntries (← inner) length)
  | .extension length => do
      let _ ← inner
      takeExtension length
  | .sizedExtension width => do
      let length ← takeNatural width
      let _ ← inner
      takeExtension length

/-- A value, when the values inside are read by `inner`. -/
def readValue (inner : Option (Reader Datum)) : Reader Datum := do
  let b ← takeByte
  let form ← Form.ofByte? b
  readForm inner form

/-! ## Values -/

/-- A value with at most `depth` containers around each other. -/
def readWithin : (depth : Nat) → Reader Datum
  | 0 => readValue none
  | depth + 1 => readValue (some (readWithin depth))

/-- How deep containers may be nested. -/
def maxDepth : Nat :=
  1023

/-- The value at the front of the bytes; what follows it does not count. -/
def read? (bytes : List UInt8) : Option Datum :=
  (readWithin maxDepth bytes).map Prod.fst

end MessagePack
end RubyIndex
