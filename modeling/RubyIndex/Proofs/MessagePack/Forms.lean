import RubyIndex.MessagePack.Reader

/-!
# The forms of MessagePack

A value can be written in many forms: a number with or without a sign and in more bytes than it
needs, and in front of a text or a container its size in any width.  The reader tells from the first
byte how to go on.

* `Reads`, a reader that takes exactly some bytes, with the rules for readers put together from
  others;
* `Sized`, `Counted`, the sizes in front of a value;
* `Encodes`, some bytes are a value in one of its forms, with so many containers around each other;
* `reads_encodes`, whatever the form, the value is read and nothing more is taken.
-/

namespace RubyIndex

/-! ## Texts as bytes -/

theorem toList_loop_eq (bytes : ByteArray) (i : Nat) (before : List UInt8) :
    ByteArray.toList.loop bytes i before = before.reverse ++ bytes.data.toList.drop i := by
  fun_induction ByteArray.toList.loop bytes i before with
  | case1 i before hi ih =>
      have hlength : i < bytes.data.toList.length := by simpa using hi
      have hget : bytes.get! i = bytes.data.toList[i] := by
        show bytes.data[i]! = _
        simp [hi]
      rw [ih, List.drop_eq_getElem_cons hlength, hget]
      simp
  | case2 i before hi =>
      have hlength : bytes.data.toList.length ≤ i := by simpa using hi
      rw [List.drop_eq_nil_of_le hlength, List.append_nil]

theorem length_utf8 (s : String) : (utf8 s).length = s.utf8ByteSize := by
  unfold utf8 ByteArray.toList
  rw [toList_loop_eq]
  simp

theorem ofUtf8?_utf8 (s : String) : ofUtf8? (utf8 s) = some s := by
  have hbytes : ByteArray.mk (utf8 s).toArray = s.toUTF8 := by
    unfold utf8 ByteArray.toList
    rw [toList_loop_eq]
    simp
  unfold ofUtf8?
  rw [hbytes]
  unfold String.fromUTF8?
  rw [String.toUTF8_eq_toByteArray, dif_pos s.isValidUTF8]
  rfl

namespace MessagePack

/-! ## Readers that take exactly some bytes -/

/-- From the front of any bytes that start with `bytes`, the reader takes just these and results in
`a`. -/
def Reads {α : Type} (reader : Reader α) (bytes : List UInt8) (a : α) : Prop :=
  ∀ rest, reader (bytes ++ rest) = some (a, rest)

namespace Reads

variable {α β : Type} {reader : Reader α} {bytes bytes' : List UInt8} {a : α} {b : β}

theorem pure (a : α) : Reads (pure a) [] a := by
  intro rest
  rfl

theorem bind {next : α → Reader β} (h : Reads reader bytes a) (hnext : Reads (next a) bytes' b) :
    Reads (reader >>= next) (bytes ++ bytes') b := by
  intro rest
  have hfirst := h (bytes' ++ rest)
  rw [← List.append_assoc] at hfirst
  show (reader (bytes ++ bytes' ++ rest)).bind (fun x => next x.1 x.2) = _
  rw [hfirst]
  exact hnext rest

theorem map (f : α → β) (h : Reads reader bytes a) : Reads (f <$> reader) bytes (f a) := by
  intro rest
  show (reader (bytes ++ rest)).bind (fun x => some (f x.1, x.2)) = _
  rw [h rest]
  rfl

/-- The result of the last step is wrapped up. -/
theorem bind_pure {f : α → β} (h : Reads reader bytes a) :
    Reads (do let x ← reader; Pure.pure (f x)) bytes (f a) :=
  map f h

end Reads

theorem reads_takeBytes (bytes : List UInt8) : Reads (takeBytes bytes.length) bytes bytes := by
  intro rest
  exact splitBytes?_append bytes rest

theorem reads_takeNatural {width n : Nat} (h : n < byteBound width) :
    Reads (takeNatural width) (bigEndian width n) n := by
  have hbytes := reads_takeBytes (bigEndian width n)
  rw [length_bigEndian] at hbytes
  have hvalue := hbytes.bind_pure (f := ofBigEndian)
  rw [ofBigEndian_bigEndian h] at hvalue
  exact hvalue

/-- The upper half of the numbers of some bytes stands for the negative ones. -/
theorem reads_takeSigned {width : Nat} {i : Int} (hlow : -(byteBound width : Int) ≤ 2 * i)
    (hhigh : 2 * i < byteBound width) :
    Reads (takeSigned width) (bigEndian width (i % byteBound width).toNat) i := by
  have hdecoded : ∀ n : Nat, n < byteBound width →
      (if 2 * n < byteBound width then (n : Int) else (n : Int) - byteBound width) = i →
      Reads (takeSigned width) (bigEndian width n) i := by
    intro n hn hi
    have hvalue := (reads_takeNatural hn).bind_pure (f := fun n : Nat =>
      if 2 * n < byteBound width then (n : Int) else (n : Int) - byteBound width)
    rw [hi] at hvalue
    exact hvalue
  rcases Int.lt_or_le i 0 with hnegative | hnatural
  · -- below zero the bytes count down from the top
    have hmod : i % byteBound width = i + byteBound width := by
      rw [← Int.add_emod_right, Int.emod_eq_of_lt (by omega) (by omega)]
    rw [hmod]
    exact hdecoded _ (by omega) (by rw [if_neg (by omega)]; omega)
  · have hmod : i % byteBound width = i := Int.emod_eq_of_lt hnatural (by omega)
    rw [hmod]
    exact hdecoded _ (by omega) (by rw [if_pos (by omega)]; omega)

theorem reads_takeText (s : String) : Reads (takeText (utf8 s).length) (utf8 s) (.text s) := by
  -- the bytes are taken as they are and then decoded
  have hvalue : Reads (takeText (utf8 s).length) (utf8 s) _ := (reads_takeBytes (utf8 s)).bind_pure
  rw [ofUtf8?_utf8] at hvalue
  exact hvalue

theorem reads_takeGarbled {bytes : List UInt8} (h : ofUtf8? bytes = none) :
    Reads (takeText bytes.length) bytes .garbled := by
  have hvalue : Reads (takeText bytes.length) bytes _ := (reads_takeBytes bytes).bind_pure
  rw [h] at hvalue
  exact hvalue

theorem reads_takeExtension (tag : UInt8) (payload : List UInt8) :
    Reads (takeExtension payload.length) (tag :: payload) (.extension tag payload) := by
  have htag : Reads takeByte [tag] tag := fun _ => rfl
  exact htag.bind (reads_takeBytes payload).bind_pure

/-! ## First bytes -/

/-- The first byte tells the form of what follows. -/
theorem reads_readValue {inner : Option (Reader Datum)} {b : UInt8} {bytes : List UInt8}
    {d : Datum} (form : Form) (hform : Form.ofByte? b = some form)
    (h : Reads (readForm inner form) bytes d) : Reads (readValue inner) (b :: bytes) d := by
  intro rest
  show (Form.ofByte? b >>= fun form => some (form, bytes ++ rest)).bind
    (fun x => readForm inner x.1 x.2) = _
  rw [hform]
  exact h rest

theorem toNat_ofNat {n : Nat} (h : n < 0x100) : (UInt8.ofNat n).toNat = n := by
  rw [UInt8.toNat_ofNat', Nat.mod_eq_of_lt h]

theorem ofByte?_unsigned {n : Nat} (h : n < 0x80) :
    Form.ofByte? (UInt8.ofNat n) = some (.value (.unsigned n)) := by
  unfold Form.ofByte?
  rw [toNat_ofNat (by omega), if_pos h]

theorem ofByte?_map {n : Nat} (h : n < 16) :
    Form.ofByte? (UInt8.ofNat (0x80 + n)) = some (.map n) := by
  unfold Form.ofByte?
  rw [toNat_ofNat (by omega), if_neg (by omega), if_pos (by omega), Nat.add_sub_cancel_left]

theorem ofByte?_list {n : Nat} (h : n < 16) :
    Form.ofByte? (UInt8.ofNat (0x90 + n)) = some (.list n) := by
  unfold Form.ofByte?
  rw [toNat_ofNat (by omega), if_neg (by omega), if_neg (by omega), if_pos (by omega),
    Nat.add_sub_cancel_left]

theorem ofByte?_text {n : Nat} (h : n < 0x20) :
    Form.ofByte? (UInt8.ofNat (0xA0 + n)) = some (.text n) := by
  unfold Form.ofByte?
  rw [toNat_ofNat (by omega), if_neg (by omega), if_neg (by omega), if_neg (by omega),
    if_pos (by omega), Nat.add_sub_cancel_left]

theorem ofByte?_negative {n : Nat} (h : n < 0x20) :
    Form.ofByte? (UInt8.ofNat (0xFF - n)) = some (.value (.signed (Int.negSucc n))) := by
  have hvalue : ((0xFF - n : Nat) : Int) - 256 = Int.negSucc n := by omega
  unfold Form.ofByte?
  rw [toNat_ofNat (by omega), if_neg (by omega), if_neg (by omega), if_neg (by omega),
    if_neg (by omega), if_pos (by omega), hvalue]

/-! ## Markers

The markers of each sort of value, with the width in bytes of the number behind them, or with the
number of bytes of the value itself.
-/

def unsignedMarkers : List (UInt8 × Nat) :=
  [(0xCC, 1), (0xCD, 2), (0xCE, 4), (0xCF, 8)]

def signedMarkers : List (UInt8 × Nat) :=
  [(0xD0, 1), (0xD1, 2), (0xD2, 4), (0xD3, 8)]

def realMarkers : List (UInt8 × Nat) :=
  [(0xCA, 4), (0xCB, 8)]

def textMarkers : List (UInt8 × Nat) :=
  [(0xD9, 1), (0xDA, 2), (0xDB, 4)]

def binaryMarkers : List (UInt8 × Nat) :=
  [(0xC4, 1), (0xC5, 2), (0xC6, 4)]

def listMarkers : List (UInt8 × Nat) :=
  [(0xDC, 2), (0xDD, 4)]

def mapMarkers : List (UInt8 × Nat) :=
  [(0xDE, 2), (0xDF, 4)]

def extensionMarkers : List (UInt8 × Nat) :=
  [(0xC7, 1), (0xC8, 2), (0xC9, 4)]

/-- The extensions whose size needs no number. -/
def fixedMarkers : List (UInt8 × Nat) :=
  [(0xD4, 1), (0xD5, 2), (0xD6, 4), (0xD7, 8), (0xD8, 16)]

/-! ## Sizes -/

/-- A marker and the number behind it, in any of the widths that hold it. -/
def Sized (markers : List (UInt8 × Nat)) (n : Nat) (head : List UInt8) : Prop :=
  ∃ m ∈ markers, n < byteBound m.2 ∧ head = m.1 :: bigEndian m.2 n

/-- A number below `limit` may also stand in the marker itself. -/
def Counted (short limit : Nat) (markers : List (UInt8 × Nat)) (n : Nat) (head : List UInt8) :
    Prop :=
  (n < limit ∧ head = [UInt8.ofNat (short + n)]) ∨ Sized markers n head

section Sizes

variable {inner : Option (Reader Datum)} {markers : List (UInt8 × Nat)} {n : Nat}
  {head bytes : List UInt8} {d : Datum}

theorem reads_sized (form : Nat → Form) (hhead : Sized markers n head)
    (hmarkers : ∀ m ∈ markers, Form.ofByte? m.1 = some (form m.2))
    (h : ∀ width, n < byteBound width →
      Reads (readForm inner (form width)) (bigEndian width n ++ bytes) d) :
    Reads (readValue inner) (head ++ bytes) d := by
  rcases hhead with ⟨m, hm, hwidth, rfl⟩
  exact reads_readValue (form m.2) (hmarkers m hm) (h m.2 hwidth)

theorem reads_counted {short limit : Nat} {shortForm : Form} (form : Nat → Form)
    (hhead : Counted short limit markers n head)
    (hshort : n < limit → Form.ofByte? (UInt8.ofNat (short + n)) = some shortForm)
    (hmarkers : ∀ m ∈ markers, Form.ofByte? m.1 = some (form m.2))
    (hinside : Reads (readForm inner shortForm) bytes d)
    (h : ∀ width, n < byteBound width →
      Reads (readForm inner (form width)) (bigEndian width n ++ bytes) d) :
    Reads (readValue inner) (head ++ bytes) d := by
  rcases hhead with ⟨hlimit, rfl⟩ | hsized
  · exact reads_readValue shortForm (hshort hlimit) hinside
  · exact reads_sized form hsized hmarkers h

end Sizes

/-! ## Containers -/

section Containers

variable {value : Reader Datum}

/-- Values one after the other, each with its bytes. -/
theorem reads_readItems {parts : List (Datum × List UInt8)}
    (h : ∀ part ∈ parts, Reads value part.2 part.1) :
    Reads (readItems value (parts.map Prod.fst).length) (parts.map Prod.snd).flatten
      (parts.map Prod.fst) := by
  induction parts with
  | nil => exact .pure []
  | cons part parts ih =>
      have hitem := h part List.mem_cons_self
      have hitems := ih fun p hp => h p (List.mem_cons_of_mem _ hp)
      exact hitem.bind hitems.bind_pure

/-- Keys and values one after the other, each with its bytes. -/
theorem reads_readEntries {parts : List ((Datum × List UInt8) × Datum × List UInt8)}
    (hkeys : ∀ part ∈ parts, Reads value part.1.2 part.1.1)
    (hvalues : ∀ part ∈ parts, Reads value part.2.2 part.2.1) :
    Reads (readEntries value (parts.map fun part => (part.1.1, part.2.1)).length)
      (parts.map fun part => part.1.2 ++ part.2.2).flatten
      (parts.map fun part => (part.1.1, part.2.1)) := by
  induction parts with
  | nil => exact .pure []
  | cons part parts ih =>
      -- the key is read first, then the value behind it
      have hkey := hkeys part List.mem_cons_self
      have hvalue := hvalues part List.mem_cons_self
      have hentries := ih (fun p hp => hkeys p (List.mem_cons_of_mem _ hp))
        fun p hp => hvalues p (List.mem_cons_of_mem _ hp)
      have hread : Reads (readEntries value ((parts.map fun p => (p.1.1, p.2.1)).length + 1))
          (part.1.2 ++ (part.2.2 ++ (parts.map fun p => p.1.2 ++ p.2.2).flatten))
          ((part.1.1, part.2.1) :: parts.map fun p => (p.1.1, p.2.1)) :=
        hkey.bind (hvalue.bind hentries.bind_pure)
      rw [← List.append_assoc] at hread
      exact hread

end Containers

/-! ## Values -/

/-- The bytes are the value in one of its forms, with at most `depth` containers around each other.
No form is the shortest of its value: the widths of numbers and of sizes are free, as far as they
hold the number. -/
inductive Encodes : (depth : Nat) → Datum → List UInt8 → Prop
  | nil {depth : Nat} : Encodes depth .nil [0xC0]
  | bool {depth : Nat} (value : Bool) :
      Encodes depth (.bool value) [if value then 0xC3 else 0xC2]
  /-- A small number in the marker itself. -/
  | small {depth n : Nat} : n < 0x80 → Encodes depth (.unsigned n) [UInt8.ofNat n]
  | unsigned {depth n : Nat} {bytes : List UInt8} :
      Sized unsignedMarkers n bytes → Encodes depth (.unsigned n) bytes
  /-- A number slightly below zero in the marker itself. -/
  | smallNegative {depth n : Nat} :
      n < 0x20 → Encodes depth (.signed (Int.negSucc n)) [UInt8.ofNat (0xFF - n)]
  /-- The two's complement of a number of either sign. -/
  | signed {depth width : Nat} {marker : UInt8} {i : Int} :
      (marker, width) ∈ signedMarkers → -(byteBound width : Int) ≤ 2 * i →
      2 * i < byteBound width →
      Encodes depth (.signed i) (marker :: bigEndian width (i % byteBound width).toNat)
  | real {depth : Nat} {marker : UInt8} {bytes : List UInt8} :
      (marker, bytes.length) ∈ realMarkers → Encodes depth (.real bytes) (marker :: bytes)
  | text {depth : Nat} {s : String} {head : List UInt8} :
      Counted 0xA0 0x20 textMarkers (utf8 s).length head →
      Encodes depth (.text s) (head ++ utf8 s)
  | garbled {depth : Nat} {head bytes : List UInt8} :
      ofUtf8? bytes = none → Counted 0xA0 0x20 textMarkers bytes.length head →
      Encodes depth .garbled (head ++ bytes)
  | binary {depth : Nat} {head bytes : List UInt8} :
      Sized binaryMarkers bytes.length head → Encodes depth (.binary bytes) (head ++ bytes)
  | list {depth : Nat} {head : List UInt8} {parts : List (Datum × List UInt8)} :
      Counted 0x90 16 listMarkers (parts.map Prod.fst).length head →
      (∀ part ∈ parts, Encodes depth part.1 part.2) →
      Encodes (depth + 1) (.list (parts.map Prod.fst)) (head ++ (parts.map Prod.snd).flatten)
  | map {depth : Nat} {head : List UInt8}
      {parts : List ((Datum × List UInt8) × Datum × List UInt8)} :
      Counted 0x80 16 mapMarkers (parts.map fun part => (part.1.1, part.2.1)).length head →
      (∀ part ∈ parts, Encodes depth part.1.1 part.1.2) →
      (∀ part ∈ parts, Encodes depth part.2.1 part.2.2) →
      Encodes (depth + 1) (.map (parts.map fun part => (part.1.1, part.2.1)))
        (head ++ (parts.map fun part => part.1.2 ++ part.2.2).flatten)
  | fixedExtension {depth : Nat} {marker tag : UInt8} {payload : List UInt8} :
      (marker, payload.length) ∈ fixedMarkers →
      Encodes (depth + 1) (.extension tag payload) (marker :: tag :: payload)
  | extension {depth : Nat} {tag : UInt8} {head payload : List UInt8} :
      Sized extensionMarkers payload.length head →
      Encodes (depth + 1) (.extension tag payload) (head ++ tag :: payload)

section Scalars

variable (inner : Option (Reader Datum))

theorem reads_unsigned {n : Nat} {bytes : List UInt8} (h : Sized unsignedMarkers n bytes) :
    Reads (readValue inner) bytes (.unsigned n) := by
  have hread : Reads (readValue inner) (bytes ++ []) (.unsigned n) := by
    refine reads_sized .unsigned h (by simp [unsignedMarkers, Form.ofByte?]) ?_
    intro width hwidth
    rw [List.append_nil]
    exact (reads_takeNatural hwidth).map Datum.unsigned
  rwa [List.append_nil] at hread

theorem reads_signed {marker : UInt8} {width : Nat} {i : Int}
    (hmarker : (marker, width) ∈ signedMarkers) (hlow : -(byteBound width : Int) ≤ 2 * i)
    (hhigh : 2 * i < byteBound width) :
    Reads (readValue inner) (marker :: bigEndian width (i % byteBound width).toNat)
      (.signed i) := by
  have hforms : ∀ m ∈ signedMarkers, Form.ofByte? m.1 = some (.signed m.2) := by
    simp [signedMarkers, Form.ofByte?]
  exact reads_readValue _ (hforms _ hmarker) ((reads_takeSigned hlow hhigh).map Datum.signed)

theorem reads_real {marker : UInt8} {bytes : List UInt8}
    (hmarker : (marker, bytes.length) ∈ realMarkers) :
    Reads (readValue inner) (marker :: bytes) (.real bytes) := by
  have hforms : ∀ m ∈ realMarkers, Form.ofByte? m.1 = some (.real m.2) := by
    simp [realMarkers, Form.ofByte?]
  exact reads_readValue _ (hforms _ hmarker) ((reads_takeBytes bytes).map Datum.real)

/-- A text, or bytes in the place of a text that spell none. -/
theorem reads_text {head bytes : List UInt8} {d : Datum}
    (hhead : Counted 0xA0 0x20 textMarkers bytes.length head)
    (h : Reads (takeText bytes.length) bytes d) : Reads (readValue inner) (head ++ bytes) d := by
  refine reads_counted .sizedText hhead ofByte?_text
    (by simp [textMarkers, Form.ofByte?]) h ?_
  intro width hwidth
  exact (reads_takeNatural hwidth).bind h

theorem reads_binary {head bytes : List UInt8} (hhead : Sized binaryMarkers bytes.length head) :
    Reads (readValue inner) (head ++ bytes) (.binary bytes) := by
  refine reads_sized .sizedBinary hhead (by simp [binaryMarkers, Form.ofByte?]) ?_
  intro width hwidth
  exact (reads_takeNatural hwidth).bind (reads_takeBytes bytes).bind_pure

end Scalars

section Containers

variable {value : Reader Datum}

theorem reads_list {head bytes : List UInt8} {items : List Datum}
    (hhead : Counted 0x90 16 listMarkers items.length head)
    (h : Reads (readItems value items.length) bytes items) :
    Reads (readValue (some value)) (head ++ bytes) (.list items) := by
  -- the items are read alike behind each of the heads
  have hitems := h.bind_pure (f := Datum.list)
  refine reads_counted .sizedList hhead ofByte?_list
    (by simp [listMarkers, Form.ofByte?]) hitems ?_
  intro width hwidth
  exact (reads_takeNatural hwidth).bind hitems

theorem reads_map {head bytes : List UInt8} {entries : List (Datum × Datum)}
    (hhead : Counted 0x80 16 mapMarkers entries.length head)
    (h : Reads (readEntries value entries.length) bytes entries) :
    Reads (readValue (some value)) (head ++ bytes) (.map entries) := by
  have hentries := h.bind_pure (f := Datum.map)
  refine reads_counted .sizedMap hhead ofByte?_map
    (by simp [mapMarkers, Form.ofByte?]) hentries ?_
  intro width hwidth
  exact (reads_takeNatural hwidth).bind hentries

/-- An extension counts as a container: it is read only where something may be inside. -/
theorem reads_extension {head payload : List UInt8} (tag : UInt8)
    (hhead : Sized extensionMarkers payload.length head) :
    Reads (readValue (some value)) (head ++ tag :: payload) (.extension tag payload) := by
  refine reads_sized .sizedExtension hhead
    (by simp [extensionMarkers, Form.ofByte?]) ?_
  intro width hwidth
  exact (reads_takeNatural hwidth).bind (reads_takeExtension tag payload)

theorem reads_fixedExtension {marker : UInt8} {payload : List UInt8} (tag : UInt8)
    (hmarker : (marker, payload.length) ∈ fixedMarkers) :
    Reads (readValue (some value)) (marker :: tag :: payload) (.extension tag payload) := by
  have hforms : ∀ m ∈ fixedMarkers, Form.ofByte? m.1 = some (.extension m.2) := by
    simp [fixedMarkers, Form.ofByte?]
  exact reads_readValue _ (hforms _ hmarker) (reads_takeExtension tag payload)

end Containers

/-- A value that is read alike whatever may be inside of it is read at every depth. -/
theorem reads_readWithin {bytes : List UInt8} {d : Datum}
    (h : ∀ inner, Reads (readValue inner) bytes d) (depth : Nat) :
    Reads (readWithin depth) bytes d := by
  cases depth with
  | zero => exact h none
  | succ depth => exact h (some (readWithin depth))

/-- Whichever of its forms a value has, it is read, and nothing more is taken. -/
theorem reads_encodes {depth : Nat} {d : Datum} {bytes : List UInt8} (h : Encodes depth d bytes) :
    Reads (readWithin depth) bytes d := by
  induction h with
  | nil => exact reads_readWithin (fun inner => reads_readValue _ rfl (.pure _)) _
  | bool value =>
      refine reads_readWithin (fun inner => ?_) _
      cases value <;> exact reads_readValue _ rfl (.pure _)
  | small hn =>
      exact reads_readWithin (fun inner => reads_readValue _ (ofByte?_unsigned hn) (.pure _)) _
  | unsigned hsized => exact reads_readWithin (fun inner => reads_unsigned inner hsized) _
  | smallNegative hn =>
      exact reads_readWithin (fun inner => reads_readValue _ (ofByte?_negative hn) (.pure _)) _
  | signed hmarker hlow hhigh =>
      exact reads_readWithin (fun inner => reads_signed inner hmarker hlow hhigh) _
  | real hmarker => exact reads_readWithin (fun inner => reads_real inner hmarker) _
  | text hhead => exact reads_readWithin (fun inner => reads_text inner hhead (reads_takeText _)) _
  | garbled hbytes hhead =>
      exact reads_readWithin (fun inner => reads_text inner hhead (reads_takeGarbled hbytes)) _
  | binary hhead => exact reads_readWithin (fun inner => reads_binary inner hhead) _
  -- a container opens one level, at which the induction reads what is inside
  | list hhead _ ih => exact reads_list hhead (reads_readItems ih)
  | map hhead _ _ ihkeys ihvalues => exact reads_map hhead (reads_readEntries ihkeys ihvalues)
  | fixedExtension hmarker => exact reads_fixedExtension _ hmarker
  | extension hhead => exact reads_extension _ hhead

/-- The value is read, whatever follows it. -/
theorem read?_encodes {d : Datum} {bytes : List UInt8} (h : Encodes maxDepth d bytes)
    (rest : List UInt8) : read? (bytes ++ rest) = some d := by
  unfold read?
  rw [reads_encodes h rest]
  rfl

end MessagePack
end RubyIndex
