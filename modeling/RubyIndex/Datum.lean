/-!
# Self-describing data

The values that the JSON and the MessagePack forms of a record have in common.  Integers keep the
sign their form gives them, since MessagePack lets an unsigned integer stand for the position of a
field or variant.

* `Datum`, a value, and `Datum.natural?`, `Datum.text?` for the scalars records use;
* `Datum.slots?`, the fields of a record, taken from a map, a list or bytes.
-/

namespace RubyIndex

inductive Datum
  | nil
  | bool (value : Bool)
  | unsigned (value : Nat)
  | signed (value : Int)
  /-- A floating point number by its big-endian bytes. -/
  | real (bytes : List UInt8)
  | text (value : String)
  /-- A text whose parts spell no characters. -/
  | garbled
  | binary (bytes : List UInt8)
  | list (items : List Datum)
  | map (entries : List (Datum × Datum))
  | extension (tag : UInt8) (payload : List UInt8)
  deriving Inhabited

namespace Datum

/-! ## Scalars -/

/-- An integer of either sign marking that is not negative. -/
def natural? : Datum → Option Nat
  | unsigned n => some n
  | signed (.ofNat n) => some n
  | _ => none

/-- A natural number below `bound`. -/
def naturalBelow? (bound : Nat) (d : Datum) : Option Nat :=
  d.natural?.filter fun n => n < bound

/-- A text; binary data counts when it is well-formed UTF-8. -/
def text? : Datum → Option String
  | text s => some s
  | binary bytes => String.fromUTF8? (ByteArray.mk bytes.toArray)
  | _ => none

/-- The items of a list; those of binary data are its bytes. -/
def list? : Datum → Option (List Datum)
  | list items => some items
  | binary bytes => some (bytes.map fun b => unsigned b.toNat)
  | _ => none

/-! ## Records -/

/-- What a key of a map says about the fields of a record. -/
inductive Key
  /-- The field at this position. -/
  | field (index : Nat)
  /-- No field of the record. -/
  | unknown
  deriving DecidableEq

/-- The position of a name in a list of names. -/
def indexOf? (name : String) : List String → Option Nat
  | [] => none
  | n :: names => if n = name then some 0 else (indexOf? name names).map (· + 1)

/-- Reads a key: fields go by name or by position, a garbled text names none of them, and a negative
number, a list or the like is no key at all. -/
def key? (names : List String) : Datum → Option Key
  | unsigned n => some (if n < names.length then .field n else .unknown)
  | text s => some (((indexOf? s names).map Key.field).getD .unknown)
  | binary bytes =>
      some (((String.fromUTF8? (ByteArray.mk bytes.toArray)).bind fun s =>
        (indexOf? s names).map Key.field).getD .unknown)
  | garbled => some .unknown
  | _ => none

/-- The fields of a record in order, each with what was given for it, and whether they were given by
position. -/
structure Slots where
  positional : Bool
  values : List (Option Datum)

/-- Puts a value into an empty slot. -/
def fill? : (slots : List (Option Datum)) → (index : Nat) → (value : Datum) →
    Option (List (Option Datum))
  | [], _, _ => none
  | none :: rest, 0, value => some (some value :: rest)
  | some _ :: _, 0, _ => none
  | slot :: rest, index + 1, value => (fill? rest index value).map (slot :: ·)

/-- Files map entries under their fields: unknown keys are skipped, a repeated field is refused. -/
def fileEntries? (names : List String) :
    (slots : List (Option Datum)) → (entries : List (Datum × Datum)) → Option (List (Option Datum))
  | slots, [] => some slots
  | slots, (key, value) :: entries =>
      match key? names key with
      | none => none
      | some .unknown => fileEntries? names slots entries
      | some (.field index) =>
          (fill? slots index value).bind fun slots => fileEntries? names slots entries

/-- The items by position, those missing at the end left out. -/
def padded (names : List String) (items : List Datum) : List (Option Datum) :=
  items.map some ++ List.replicate (names.length - items.length) none

/-- The fields of a record: a map by key, or a list by position with at most one item a field.  Of
binary data, the first bytes are the fields. -/
def slots? (names : List String) : Datum → Option Slots
  | map entries =>
      (fileEntries? names (names.map fun _ => none) entries).map fun values => ⟨false, values⟩
  | list items =>
      if items.length ≤ names.length then some ⟨true, padded names items⟩ else none
  | binary bytes =>
      let items := (bytes.take names.length).map fun b => unsigned b.toNat
      some ⟨true, padded names items⟩
  | _ => none

namespace Slots

/-- The slot of the field at `index`. -/
def slot (s : Slots) (index : Nat) : Option Datum :=
  (s.values[index]?).join

/-- A field that must be given. -/
def required? {α : Type} (s : Slots) (index : Nat) (read : Datum → Option α) : Option α :=
  (s.slot index).bind read

/-- A field that may be nil, and may be missing when fields go by key. -/
def optional? {α : Type} (s : Slots) (index : Nat) (read : Datum → Option α) : Option (Option α) :=
  match s.slot index with
  | none => if s.positional then none else some none
  | some .nil => some none
  | some d => (read d).map some

/-- A list that is empty when it is missing. -/
def defaulted? {α : Type} (s : Slots) (index : Nat) (read : Datum → Option (List α)) :
    Option (List α) :=
  match s.slot index with
  | none => some []
  | some d => read d

end Slots

/-- Every item of a list. -/
def listOf? {α : Type} (read : Datum → Option α) (d : Datum) : Option (List α) :=
  d.list?.bind fun items => items.mapM read

/-! ## Variants -/

/-- The position of a variant by its name or its index. -/
def variant? (names : List String) (d : Datum) : Option Nat :=
  match key? names d with
  | some (.field index) => some index
  | _ => none

end Datum
end RubyIndex
