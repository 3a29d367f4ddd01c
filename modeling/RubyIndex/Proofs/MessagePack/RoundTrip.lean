import RubyIndex.MessagePack.Writer
import RubyIndex.Proofs.MessagePack.Forms

/-!
# Written MessagePack is read back

A value is written with a marker that depends on its size, followed by its size in one, two, four or
eight bytes or in the marker itself.  That is one of the forms of the value, so it is read back.

* `sized_sized`, `counted_counted`, the sizes in front of a value;
* `Writable`, the values whose sizes can be written and whose nesting can be read;
* `encodes_write`, what is written for such a value is a form of it;
* `read?_write`, every such value is read back from what is written for it.
-/

namespace RubyIndex
namespace MessagePack

/-! ## Sizes -/

section Sizes

variable {markers : List (UInt8 × Nat)} {n marker : Nat}

/-- A marker with a number of one, two or four bytes. -/
theorem sized_sized (hn : n < UInt32.size) (hone : (UInt8.ofNat marker, 1) ∈ markers)
    (htwo : (UInt8.ofNat (marker + 1), 2) ∈ markers)
    (hfour : (UInt8.ofNat (marker + 2), 4) ∈ markers) : Sized markers n (sized marker n) := by
  unfold sized
  split
  · rename_i hsize
    exact ⟨_, hone, hsize, rfl⟩
  · split
    · rename_i hsize
      exact ⟨_, htwo, hsize, rfl⟩
    · exact ⟨_, hfour, hn, rfl⟩

/-- A count in the marker itself, or behind it in two or four bytes. -/
theorem counted_counted {short limit : Nat} (hn : n < UInt32.size)
    (htwo : (UInt8.ofNat marker, 2) ∈ markers) (hfour : (UInt8.ofNat (marker + 1), 4) ∈ markers) :
    Counted short limit markers n (counted short limit marker n) := by
  unfold counted
  split
  · rename_i hsize
    exact .inl ⟨hsize, rfl⟩
  · split
    · rename_i hsize
      exact .inr ⟨_, htwo, hsize, rfl⟩
    · exact .inr ⟨_, hfour, hn, rfl⟩

theorem counted_textHead (hn : n < UInt32.size) :
    Counted 0xA0 0x20 textMarkers n (textHead n) := by
  unfold textHead
  split
  · rename_i hshort
    exact .inl ⟨hshort, rfl⟩
  · exact .inr (sized_sized hn (by decide) (by decide) (by decide))

end Sizes

/-! ## Numbers and extensions -/

theorem encodes_writeNatural {n : Nat} (h : n < UInt64.size) (depth : Nat) :
    Encodes depth (.unsigned n) (writeNatural n) := by
  unfold writeNatural
  split
  · rename_i hsmall
    exact .small hsmall
  · split
    · rename_i _ hword
      exact .unsigned (sized_sized hword (by decide) (by decide) (by decide))
    · exact .unsigned ⟨(0xCF, 8), by decide, h, rfl⟩

/-- In two's complement a number below zero is counted down from the top. -/
theorem encodes_negSucc {n : Nat} (width : Nat) {marker : UInt8}
    (hmarker : (marker, width) ∈ signedMarkers) (h : 2 * (n + 1) ≤ byteBound width) (depth : Nat) :
    Encodes depth (.signed (Int.negSucc n))
      (marker :: bigEndian width (byteBound width - 1 - n)) := by
  have hmod : Int.negSucc n % byteBound width = Int.negSucc n + byteBound width := by
    rw [← Int.add_emod_right, Int.emod_eq_of_lt (by omega) (by omega)]
  have hvalue : (Int.negSucc n % byteBound width).toNat = byteBound width - 1 - n := by
    rw [hmod]
    omega
  rw [← hvalue]
  exact .signed hmarker (by omega) (by omega)

theorem encodes_writeNegative {n : Nat} (h : 2 * (n + 1) ≤ UInt64.size) (depth : Nat) :
    Encodes depth (.signed (Int.negSucc n)) (writeNegative n) := by
  -- the markers by width: in the marker itself, then one, two, four and eight bytes
  unfold writeNegative
  split
  · rename_i hsmall
    exact .smallNegative hsmall
  · split
    · exact encodes_negSucc 1 (by decide) (by simp only [byteBound]; omega) depth
    · split
      · exact encodes_negSucc 2 (by decide) (by simp only [byteBound]; omega) depth
      · split
        · exact encodes_negSucc 4 (by decide) (by simp only [byteBound]; omega) depth
        · exact encodes_negSucc 8 (by decide) h depth

theorem encodes_writeExtension {payload : List UInt8} (tag : UInt8)
    (hsize : payload.length < UInt32.size) (depth : Nat) :
    Encodes (depth + 1) (.extension tag payload) (write (.extension tag payload)) := by
  rw [write]
  unfold extensionHead
  split
  case h_6 => exact .extension (sized_sized hsize (by decide) (by decide) (by decide))
  all_goals
    rename_i hlength
    refine .fixedExtension ?_
    rw [hlength]
    decide

/-! ## Values -/

/-- The values that can be written and read back with at most `depth` containers around each other:
numbers have at most eight bytes, and sizes and counts at most four.  A number that is not negative
is written without a sign. -/
inductive Writable : Nat → Datum → Prop
  | nil {depth : Nat} : Writable depth .nil
  | bool {depth : Nat} (value : Bool) : Writable depth (.bool value)
  | unsigned {depth n : Nat} : n < UInt64.size → Writable depth (.unsigned n)
  | negative {depth n : Nat} :
      2 * (n + 1) ≤ UInt64.size → Writable depth (.signed (Int.negSucc n))
  | real {depth : Nat} {bytes : List UInt8} :
      bytes.length = 4 ∨ bytes.length = 8 → Writable depth (.real bytes)
  | text {depth : Nat} {s : String} : s.utf8ByteSize < UInt32.size → Writable depth (.text s)
  | garbled {depth : Nat} : Writable depth .garbled
  | binary {depth : Nat} {bytes : List UInt8} :
      bytes.length < UInt32.size → Writable depth (.binary bytes)
  | list {depth : Nat} {items : List Datum} :
      items.length < UInt32.size → (∀ d ∈ items, Writable depth d) →
      Writable (depth + 1) (.list items)
  | map {depth : Nat} {entries : List (Datum × Datum)} :
      entries.length < UInt32.size →
      (∀ entry ∈ entries, Writable depth entry.1) → (∀ entry ∈ entries, Writable depth entry.2) →
      Writable (depth + 1) (.map entries)
  | extension {depth : Nat} {tag : UInt8} {payload : List UInt8} :
      payload.length < UInt32.size → Writable (depth + 1) (.extension tag payload)

theorem writeAll_eq_flatten (items : List Datum) :
    writeAll items = (items.map write).flatten := by
  induction items with
  | nil => rfl
  | cons item items ih => rw [writeAll, ih, List.map_cons, List.flatten_cons]

theorem writeEntries_eq_flatten (entries : List (Datum × Datum)) :
    writeEntries entries = (entries.map fun entry => write entry.1 ++ write entry.2).flatten := by
  induction entries with
  | nil => rfl
  | cons entry entries ih =>
      rw [List.map_cons, List.flatten_cons, ← ih]
      rfl

/-- A list that is written has each of its items written. -/
theorem encodes_writeList {items : List Datum} {depth : Nat} (hcount : items.length < UInt32.size)
    (h : ∀ d ∈ items, Encodes depth d (write d)) :
    Encodes (depth + 1) (.list items) (write (.list items)) := by
  let parts := items.map fun d => (d, write d)
  have hitems : parts.map Prod.fst = items := by simp [parts, Function.comp_def]
  have hbytes : parts.map Prod.snd = items.map write := by simp [parts, Function.comp_def]
  have hparts : ∀ part ∈ parts, Encodes depth part.1 part.2 := by
    intro part hpart
    rcases List.mem_map.1 hpart with ⟨d, hd, rfl⟩
    exact h d hd
  have hhead : Counted 0x90 16 listMarkers (parts.map Prod.fst).length
      (counted 0x90 16 0xDC items.length) := by
    rw [hitems]
    exact counted_counted hcount (by decide) (by decide)
  have hencodes := Encodes.list hhead hparts
  rw [hitems, hbytes, ← writeAll_eq_flatten] at hencodes
  rw [write]
  exact hencodes

/-- A map that is written has each of its keys and values written. -/
theorem encodes_writeMap {entries : List (Datum × Datum)} {depth : Nat}
    (hcount : entries.length < UInt32.size)
    (hkeys : ∀ entry ∈ entries, Encodes depth entry.1 (write entry.1))
    (hvalues : ∀ entry ∈ entries, Encodes depth entry.2 (write entry.2)) :
    Encodes (depth + 1) (.map entries) (write (.map entries)) := by
  let parts := entries.map fun entry => ((entry.1, write entry.1), (entry.2, write entry.2))
  have hentries : (parts.map fun part => (part.1.1, part.2.1)) = entries := by
    simp [parts, Function.comp_def]
  have hbytes : (parts.map fun part => part.1.2 ++ part.2.2) =
      entries.map fun entry => write entry.1 ++ write entry.2 := by
    simp [parts, Function.comp_def]
  have hhead : Counted 0x80 16 mapMarkers (parts.map fun part => (part.1.1, part.2.1)).length
      (counted 0x80 16 0xDE entries.length) := by
    rw [hentries]
    exact counted_counted hcount (by decide) (by decide)
  have hkeyParts : ∀ part ∈ parts, Encodes depth part.1.1 part.1.2 := by
    intro part hpart
    rcases List.mem_map.1 hpart with ⟨entry, hentry, rfl⟩
    exact hkeys entry hentry
  have hvalueParts : ∀ part ∈ parts, Encodes depth part.2.1 part.2.2 := by
    intro part hpart
    rcases List.mem_map.1 hpart with ⟨entry, hentry, rfl⟩
    exact hvalues entry hentry
  have hencodes := Encodes.map hhead hkeyParts hvalueParts
  rw [hentries, hbytes, ← writeEntries_eq_flatten] at hencodes
  rw [write]
  exact hencodes

/-- What is written for a value is one of its forms. -/
theorem encodes_write {depth : Nat} {d : Datum} (h : Writable depth d) :
    Encodes depth d (write d) := by
  induction h with
  | nil => exact .nil
  | bool value => cases value <;> exact .bool _
  | unsigned hn => exact encodes_writeNatural hn _
  | negative hn => exact encodes_writeNegative hn _
  | real hwidth =>
      rw [write]
      refine .real ?_
      rcases hwidth with hfour | height
      · rw [if_pos hfour, hfour]
        decide
      · rw [if_neg (by omega), height]
        decide
  | text hs =>
      rw [← length_utf8] at hs
      exact .text (counted_textHead hs)
  | garbled =>
      -- the one byte behind the marker spells no character
      have hbytes : ofUtf8? [0xFF] = none := rfl
      have hhead : Counted 0xA0 0x20 textMarkers [(0xFF : UInt8)].length [0xA1] :=
        .inl ⟨by decide, rfl⟩
      exact .garbled hbytes hhead
  | binary hsize => exact .binary (sized_sized hsize (by decide) (by decide) (by decide))
  | list hcount _ ih => exact encodes_writeList hcount ih
  | map hcount _ _ ihkeys ihvalues => exact encodes_writeMap hcount ihkeys ihvalues
  | extension hsize => exact encodes_writeExtension _ hsize _

/-- A written value is read back, whatever follows it. -/
theorem read?_write {d : Datum} (h : Writable maxDepth d) (rest : List UInt8) :
    read? (write d ++ rest) = some d :=
  read?_encodes (encodes_write h) rest

end MessagePack
end RubyIndex
