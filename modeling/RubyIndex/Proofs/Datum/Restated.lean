import Mathlib.Data.List.Forall2
import RubyIndex.Proofs.Datum.Fields
import RubyIndex.Proofs.Store.Lookup

/-!
# Data that say the same

The same record can be given in many ways: its fields in any order and among entries of other names,
numbers with or without a sign, and fields left out that stand for nothing.

* `Restating`, which data say the same: `Restating.same`, `Restating.natural`, `Restating.listOf`,
  `Restating.variant` and `Restating.record`, the last for a list of fields;
* `Respects`, a reader that does not tell data that say the same apart;
* `SameFound`, the fields found in two records, slot by slot, and `slots?_restated`, that they are
  the same in records that say the same;
* `SameSlots.required?_eq`, `SameSlots.optional?_eq`, `SameSlots.defaulted?_eq`, what is read from
  them;
* `respects_record`, a record is read alike when each of its fields is.
-/

namespace RubyIndex

/-! ## Rearranged lists -/

namespace Assoc

variable {α β : Type} [DecidableEq α] {key : α} {a b : Assoc α β}

/-- A key that comes once is found wherever it stands. -/
theorem find?_perm (h : a.Perm b) (honce : (keys a).count key ≤ 1) : find? key a = find? key b := by
  induction h with
  | nil => rfl
  | cons entry _ ih =>
      have honce' := Nat.le_trans (List.count_le_count_cons ..) honce
      simp only [find?, ih honce']
  | swap first second rest =>
      simp only [keys, List.map_cons, List.count_cons] at honce
      by_cases hfirst : first.1 = key
      · -- the other entry has another key, as this one would come twice
        have hsecond : second.1 ≠ key := by
          intro hsecond
          simp only [hfirst, hsecond, beq_self_eq_true, if_true] at honce
          omega
        simp [find?, hfirst, hsecond]
      · simp [find?, hfirst]
  | trans hab _ ihab ihbc =>
      have honce' := (hab.map Prod.fst).count_eq key ▸ honce
      exact (ihab honce).trans (ihbc honce')

theorem find?_of_not_mem (h : key ∉ keys a) : find? key a = none :=
  Option.not_isSome_iff_eq_none.1 (mt isSome_find?_iff.1 h)

theorem find?_append_of_not_mem (h : key ∉ keys b) : find? key (a ++ b) = find? key a := by
  induction a with
  | nil => exact find?_of_not_mem h
  | cons entry a ih => simp only [List.cons_append, find?, ih]

end Assoc

namespace Datum

/-! ## Data that say the same -/

/-- Which data say the same.  Nothing but nil says what nil says. -/
structure Restating where
  Holds : Datum → Datum → Prop
  refl : ∀ d, Holds d d
  nil_iff : ∀ {d d'}, Holds d d' → (d = .nil ↔ d' = .nil)

/-- The same number with and without a sign. -/
inductive SameNumber : Datum → Datum → Prop
  | unchanged (d : Datum) : SameNumber d d
  | signed (n : Nat) : SameNumber (.unsigned n) (.signed (.ofNat n))
  | unsigned (n : Nat) : SameNumber (.signed (.ofNat n)) (.unsigned n)

/-- Lists whose items say the same one by one. -/
inductive SameItems (item : Restating) : Datum → Datum → Prop
  | unchanged (d : Datum) : SameItems item d d
  | items {l l' : List Datum} :
      List.Forall₂ item.Holds l l' → SameItems item (.list l) (.list l')

/-- Maps of one entry of the same name, whose values say the same as the name asks for. -/
inductive SameVariant (sorts : List (String × Restating)) : Datum → Datum → Prop
  | unchanged (d : Datum) : SameVariant sorts d d
  | body {name : String} {body : Restating} {d d' : Datum} :
      (name, body) ∈ sorts → body.Holds d d' →
      SameVariant sorts (.map [(.text name, d)]) (.map [(.text name, d')])

namespace Restating

/-- Data that say the same only when they are the same. -/
def same : Restating where
  Holds := Eq
  refl _ := rfl
  nil_iff h := by rw [h]

def natural : Restating where
  Holds := SameNumber
  refl := .unchanged
  nil_iff h := by cases h <;> simp

def listOf (item : Restating) : Restating where
  Holds := SameItems item
  refl := .unchanged
  nil_iff h := by cases h <;> simp

def variant (sorts : List (String × Restating)) : Restating where
  Holds := SameVariant sorts
  refl := .unchanged
  nil_iff h := by cases h <;> simp

end Restating

/-! ## Records that say the same -/

/-- Whether a field must be given, may be nil, or is a list that may be empty. -/
inductive Presence
  | required
  | optional
  | defaulted

/-- The values of a field that say what its absence says. -/
def Presence.Omits : Presence → Datum → Prop
  | required, _ => False
  | optional, d => d = .nil
  | defaulted, d => d = .list []

structure Field where
  name : String
  presence : Presence
  value : Restating

/-- Members of two maps that give the fields, each at most once and in order, with the same to say.
A value that says what the absence of its field says may stand on one side alone. -/
inductive SameMembers : List Field → Assoc String Datum → Assoc String Datum → Prop
  | nil : SameMembers [] [] []
  | absent {field : Field} {fields : List Field} {known known' : Assoc String Datum} :
      SameMembers fields known known' → SameMembers (field :: fields) known known'
  | both {field : Field} {fields : List Field} {known known' : Assoc String Datum} {d d' : Datum} :
      field.value.Holds d d' → SameMembers fields known known' →
      SameMembers (field :: fields) ((field.name, d) :: known) ((field.name, d') :: known')
  | dropped {field : Field} {fields : List Field} {known known' : Assoc String Datum} {d : Datum} :
      field.presence.Omits d → SameMembers fields known known' →
      SameMembers (field :: fields) ((field.name, d) :: known) known'
  | added {field : Field} {fields : List Field} {known known' : Assoc String Datum} {d : Datum} :
      field.presence.Omits d → SameMembers fields known known' →
      SameMembers (field :: fields) known ((field.name, d) :: known')

/-- The key of an entry that is for none of the fields: a text that is not the name of one, or a
text that spells no characters. -/
inductive Foreign (fields : List Field) : Datum → Prop
  | text {s : String} : s ∉ fields.map Field.name → Foreign fields (.text s)
  | garbled : Foreign fields .garbled

/-- Entries that give some members of a record in any order, among others that are for none of its
fields. -/
def Arranges (fields : List Field) (known : Assoc String Datum) (entries : List (Datum × Datum)) :
    Prop :=
  ∃ others : List (Datum × Datum), (∀ e ∈ others, Foreign fields e.1) ∧
    entries.Perm (known.map (fun m => (.text m.1, m.2)) ++ others)

namespace Arranges

variable {fields : List Field} {known : Assoc String Datum}
  {entries entries' : List (Datum × Datum)}

theorem inOrder : Arranges fields known (known.map fun m => (.text m.1, m.2)) :=
  ⟨[], by simp, by simp⟩

theorem perm (h : Arranges fields known entries) (hperm : entries'.Perm entries) :
    Arranges fields known entries' := by
  rcases h with ⟨others, hforeign, hentries⟩
  exact ⟨others, hforeign, hperm.trans hentries⟩

theorem insert (h : Arranges fields known entries) {key : Datum} (hkey : Foreign fields key)
    (value : Datum) : Arranges fields known ((key, value) :: entries) := by
  rcases h with ⟨others, hforeign, hentries⟩
  refine ⟨(key, value) :: others, List.forall_mem_cons.2 ⟨hkey, hforeign⟩, ?_⟩
  exact (hentries.cons _).trans List.perm_middle.symm

end Arranges

/-- Records that say the same, by name in a map or by position in a list. -/
inductive SameRecord (fields : List Field) : Datum → Datum → Prop
  | unchanged (d : Datum) : SameRecord fields d d
  | byName {known known' : Assoc String Datum} {entries entries' : List (Datum × Datum)} :
      SameMembers fields known known' → Arranges fields known entries →
      Arranges fields known' entries' → SameRecord fields (.map entries) (.map entries')
  | byPosition {items items' : List Datum} :
      items'.length = items.length →
      (∀ (index : Nat) (field : Field) (d d' : Datum), fields[index]? = some field →
        items[index]? = some d → items'[index]? = some d' → field.value.Holds d d') →
      SameRecord fields (.list items) (.list items')

/-- Records with the same to say in each of some fields. -/
def Restating.record (fields : List Field) : Restating where
  Holds := SameRecord fields
  refl := .unchanged
  nil_iff h := by cases h <;> simp

/-! ## Readers -/

/-- The reader does not tell data that say the same apart. -/
def Respects {α : Type} (r : Restating) (read : Datum → Option α) : Prop :=
  ∀ {d d' : Datum}, r.Holds d d' → read d' = read d

theorem respects_same {α : Type} (read : Datum → Option α) : Respects .same read := by
  intro d d' h
  rw [show d = d' from h]

theorem respects_naturalBelow? (bound : Nat) : Respects .natural (naturalBelow? bound) := by
  intro d d' h
  cases h with
  | unchanged => rfl
  | signed n => rfl
  | unsigned n => rfl

theorem respects_listOf? {α : Type} {item : Restating} {read : Datum → Option α}
    (h : Respects item read) : Respects (.listOf item) (listOf? read) := by
  intro d d' hsame
  cases hsame with
  | unchanged => rfl
  | items hitems =>
      show List.mapM read _ = List.mapM read _
      induction hitems with
      | nil => rfl
      | cons hitem _ ih => rw [List.mapM_cons, List.mapM_cons, h hitem, ih]

/-! ## Fields found in a map -/

/-- The members of a map, those with a text as key. -/
def textMembers (entries : List (Datum × Datum)) : Assoc String Datum :=
  entries.filterMap fun e =>
    match e.1 with
    | .text s => some (s, e.2)
    | _ => none

/-- Entries with garbled keys count for nothing. -/
theorem fileEntries?_textMembers {names : List String} {entries : List (Datum × Datum)}
    (h : ∀ e ∈ entries, (∃ s, e.1 = .text s) ∨ e.1 = .garbled) (slots : List (Option Datum)) :
    fileEntries? names slots entries =
      fileEntries? names slots ((textMembers entries).map fun m => (.text m.1, m.2)) := by
  induction entries generalizing slots with
  | nil => rfl
  | cons e entries ih =>
      rcases e with ⟨key, value⟩
      have hrest := fun slots => ih (fun e he => h e (List.mem_cons_of_mem _ he)) slots
      rcases h _ List.mem_cons_self with ⟨s, hs⟩ | hgarbled
      · cases hs
        simp only [textMembers, List.filterMap_cons, List.map_cons, fileEntries?]
        simp only [hrest, textMembers]
      · cases hgarbled
        simp only [textMembers, List.filterMap_cons, fileEntries?, key?]
        simp only [hrest, textMembers]

section Arranged

variable {fields : List Field} {known known' : Assoc String Datum} {entries : List (Datum × Datum)}

theorem SameMembers.sublist_names (h : SameMembers fields known known') :
    known.keys.Sublist (fields.map Field.name) ∧ known'.keys.Sublist (fields.map Field.name) := by
  induction h with
  | nil => exact ⟨.slnil, .slnil⟩
  | absent _ ih => exact ⟨ih.1.cons _, ih.2.cons _⟩
  | both _ _ ih => exact ⟨ih.1.cons_cons _, ih.2.cons_cons _⟩
  | dropped _ _ ih => exact ⟨ih.1.cons_cons _, ih.2.cons _⟩
  | added _ _ ih => exact ⟨ih.1.cons _, ih.2.cons_cons _⟩

/-- The members of an arrangement with a text as key: the given ones in some order, among others
that are for none of the fields. -/
theorem Arranges.exists_perm (h : Arranges fields known entries) :
    ∃ others : Assoc String Datum, (textMembers entries).Perm (known ++ others) ∧
      ∀ name ∈ fields.map Field.name, name ∉ others.keys := by
  rcases h with ⟨others, hforeign, hperm⟩
  have htexts : textMembers (known.map (fun m => (.text m.1, m.2)) ++ others) =
      known ++ textMembers others := by
    simp [textMembers, List.filterMap_append, List.filterMap_map]
  refine ⟨textMembers others, htexts ▸ hperm.filterMap _, ?_⟩
  intro name hname hmem
  rcases List.mem_map.1 hmem with ⟨member, hmember, rfl⟩
  rcases List.mem_filterMap.1 hmember with ⟨⟨key, value⟩, he, hkey⟩
  -- the key of an entry that is for none of the fields has not the name of one
  have hkeyForeign : Foreign fields key := hforeign _ he
  cases hkeyForeign with
  | text hs =>
      cases hkey
      exact hs hname
  | garbled => cases hkey

/-- What is filed from an arrangement: each field holds what the members give for its name. -/
theorem Arranges.slots?_eq (h : Arranges fields known entries)
    (hnames : (fields.map Field.name).Nodup)
    (hknown : known.keys.Sublist (fields.map Field.name)) :
    slots? (fields.map Field.name) (.map entries) =
      some ⟨false, (fields.map Field.name).map fun name => Assoc.find? name known⟩ := by
  have hkeys : ∀ e ∈ entries, (∃ s, e.1 = .text s) ∨ e.1 = .garbled := by
    rcases h with ⟨others, hforeign, hperm⟩
    intro e he
    rcases List.mem_append.1 (hperm.mem_iff.1 he) with hmember | hother
    · rcases List.mem_map.1 hmember with ⟨m, _, rfl⟩
      exact .inl ⟨m.1, rfl⟩
    · cases hkey : e.1 with
      | text s => exact .inl ⟨s, rfl⟩
      | garbled => exact .inr rfl
      | _ => exact absurd (hkey ▸ hforeign e hother) nofun
  rcases h.exists_perm with ⟨others, hperm, hothers⟩
  have hcount : ∀ name ∈ fields.map Field.name, (textMembers entries).keys.count name ≤ 1 := by
    intro name hname
    calc (textMembers entries).keys.count name
        = (known ++ others).keys.count name := (hperm.map Prod.fst).count_eq name
      _ = (known.keys ++ others.keys).count name := by simp only [Assoc.keys, List.map_append]
      _ = known.keys.count name := by
          rw [List.count_append, List.count_eq_zero.2 (hothers name hname), Nat.add_zero]
      _ ≤ 1 := List.nodup_iff_count.1 (hnames.sublist hknown) name
  have hfound : ∀ name ∈ fields.map Field.name,
      Assoc.find? name (textMembers entries) = Assoc.find? name known := by
    intro name hname
    rw [Assoc.find?_perm hperm (hcount name hname),
      Assoc.find?_append_of_not_mem (hothers name hname)]
  have hslots := slots?_texts hnames hcount
  rw [slots?, ← fileEntries?_textMembers hkeys, ← slots?] at hslots
  rw [hslots, List.map_congr_left hfound]

end Arranged

/-! ## Slots that say the same -/

/-- What a field of two records holds.  It may be missing in one of them where fields go by name,
and where they go by position if it is a list. -/
inductive SameSlot (field : Field) (positional : Bool) : Option Datum → Option Datum → Prop
  | absent : SameSlot field positional none none
  | both {d d' : Datum} : field.value.Holds d d' → SameSlot field positional (some d) (some d')
  | dropped {d : Datum} : (positional = true → field.presence = .defaulted) →
      field.presence.Omits d → SameSlot field positional (some d) none
  | added {d : Datum} : (positional = true → field.presence = .defaulted) →
      field.presence.Omits d → SameSlot field positional none (some d)

theorem SameSlot.refl (field : Field) (positional : Bool) (o : Option Datum) :
    SameSlot field positional o o := by
  cases o with
  | none => exact .absent
  | some d => exact .both (field.value.refl d)

/-- The fields of two records hold the same, one by one. -/
structure SameSlots (fields : List Field) (s s' : Slots) : Prop where
  positional : s'.positional = s.positional
  slot : ∀ (index : Nat) (field : Field), fields[index]? = some field →
    SameSlot field s.positional (s.slot index) (s'.slot index)

theorem SameSlots.refl (fields : List Field) (s : Slots) : SameSlots fields s s :=
  ⟨rfl, fun index field _ => .refl field s.positional (s.slot index)⟩

/-- Records with the same in each of their fields, or data that are both no records. -/
def SameFound (fields : List Field) (d d' : Datum) : Prop :=
  (slots? (fields.map Field.name) d = none ∧ slots? (fields.map Field.name) d' = none) ∨
  ∃ s s', slots? (fields.map Field.name) d = some s ∧
    slots? (fields.map Field.name) d' = some s' ∧ SameSlots fields s s'

theorem SameFound.refl (fields : List Field) (d : Datum) : SameFound fields d d := by
  cases hslots : slots? (fields.map Field.name) d with
  | none => exact .inl ⟨hslots, hslots⟩
  | some s => exact .inr ⟨s, s, hslots, hslots, .refl fields s⟩

section Found

variable {fields : List Field}

/-- Fields by name hold the same when what stands under each name does. -/
theorem sameSlots_names {f f' : String → Option Datum}
    (h : ∀ field ∈ fields, SameSlot field false (f field.name) (f' field.name)) :
    SameSlots fields ⟨false, (fields.map Field.name).map f⟩
      ⟨false, (fields.map Field.name).map f'⟩ := by
  refine ⟨rfl, ?_⟩
  intro index field hfield
  simpa [Slots.slot, hfield] using h field (List.mem_of_getElem? hfield)

/-- Maps with texts as keys, in which the same fields are named once and the same ones twice. -/
theorem sameFound_texts {members members' : Assoc String Datum}
    (hnames : (fields.map Field.name).Nodup)
    (hcount : ∀ name ∈ fields.map Field.name,
      members'.keys.count name ≤ 1 ↔ members.keys.count name ≤ 1)
    (hslot : ∀ field ∈ fields, members.keys.count field.name ≤ 1 →
      SameSlot field false (Assoc.find? field.name members) (Assoc.find? field.name members')) :
    SameFound fields (.map (members.map fun m => (.text m.1, m.2)))
      (.map (members'.map fun m => (.text m.1, m.2))) := by
  by_cases honce : ∀ name ∈ fields.map Field.name, members.keys.count name ≤ 1
  · have honce' : ∀ name ∈ fields.map Field.name, members'.keys.count name ≤ 1 :=
      fun name hname => (hcount name hname).2 (honce name hname)
    refine .inr ⟨_, _, slots?_texts hnames honce, slots?_texts hnames honce', ?_⟩
    exact sameSlots_names fun field hfield =>
      hslot field hfield (honce field.name (List.mem_map_of_mem hfield))
  · -- a field that comes twice in one of the maps comes twice in the other
    simp only [not_forall, Nat.not_le] at honce
    rcases honce with ⟨name, hname, htwice⟩
    have htwice' : 1 < members'.keys.count name := by
      have := hcount name hname
      omega
    exact .inl ⟨slots?_texts_eq_none hnames hname htwice, slots?_texts_eq_none hnames hname htwice'⟩

theorem SameMembers.find?_of_not_mem {known known' : Assoc String Datum} {name : String}
    (h : SameMembers fields known known') (hname : name ∉ fields.map Field.name) :
    Assoc.find? name known = none ∧ Assoc.find? name known' = none :=
  ⟨Assoc.find?_of_not_mem fun hmem => hname (h.sublist_names.1.subset hmem),
    Assoc.find?_of_not_mem fun hmem => hname (h.sublist_names.2.subset hmem)⟩

theorem ne_name_of_not_mem {name : String} {field : Field} (hname : name ∉ fields.map Field.name)
    (hfield : field ∈ fields) : name ≠ field.name := by
  rintro rfl
  exact hname (List.mem_map_of_mem hfield)

/-- Members of the same to say are found alike under the name of each field. -/
theorem SameMembers.sameSlot {known known' : Assoc String Datum}
    (h : SameMembers fields known known') (hnames : (fields.map Field.name).Nodup) :
    ∀ field ∈ fields, SameSlot field false (Assoc.find? field.name known)
      (Assoc.find? field.name known') := by
  induction h with
  | nil => simp
  | @absent first fields known known' hrest ih =>
      rcases List.nodup_cons.1 hnames with ⟨hfirst, hnames⟩
      rcases hrest.find?_of_not_mem hfirst with ⟨hnone, hnone'⟩
      refine List.forall_mem_cons.2 ⟨?_, ih hnames⟩
      rw [hnone, hnone']
      exact .absent
  | @both first fields known known' d d' hsame hrest ih =>
      rcases List.nodup_cons.1 hnames with ⟨hfirst, hnames⟩
      refine List.forall_mem_cons.2 ⟨?_, ?_⟩
      · simp only [Assoc.find?, if_true]
        exact .both hsame
      · intro field hfield
        simp only [Assoc.find?, if_neg (ne_name_of_not_mem hfirst hfield)]
        exact ih hnames field hfield
  | @dropped first fields known known' d homits hrest ih =>
      rcases List.nodup_cons.1 hnames with ⟨hfirst, hnames⟩
      rcases hrest.find?_of_not_mem hfirst with ⟨-, hnone'⟩
      refine List.forall_mem_cons.2 ⟨?_, ?_⟩
      · simp only [Assoc.find?, if_true, hnone']
        exact .dropped (by simp) homits
      · intro field hfield
        simp only [Assoc.find?, if_neg (ne_name_of_not_mem hfirst hfield)]
        exact ih hnames field hfield
  | @added first fields known known' d homits hrest ih =>
      rcases List.nodup_cons.1 hnames with ⟨hfirst, hnames⟩
      rcases hrest.find?_of_not_mem hfirst with ⟨hnone, -⟩
      refine List.forall_mem_cons.2 ⟨?_, ?_⟩
      · simp only [Assoc.find?, if_true, hnone]
        exact .added (by simp) homits
      · intro field hfield
        simp only [Assoc.find?, if_neg (ne_name_of_not_mem hfirst hfield)]
        exact ih hnames field hfield

theorem slot_padded {names : List String} {items : List Datum} {index : Nat}
    (hindex : index < names.length) :
    Slots.slot ⟨true, padded names items⟩ index = items[index]? := by
  unfold Slots.slot padded
  rcases Nat.lt_or_ge index items.length with hitem | hmissing
  · rw [List.getElem?_append_left (by simpa using hitem), List.getElem?_map,
      List.getElem?_eq_getElem hitem]
    rfl
  · rw [List.getElem?_append_right (by simpa using hmissing), List.length_map,
      List.getElem?_replicate_of_lt (by omega), List.getElem?_eq_none hmissing]
    rfl

/-- Lists that hold the same for each field, unless they are both too long. -/
theorem sameFound_lists {items items' : List Datum}
    (hfew : items'.length ≤ fields.length ↔ items.length ≤ fields.length)
    (hslot : ∀ (index : Nat) (field : Field), fields[index]? = some field →
      SameSlot field true items[index]? items'[index]?) :
    SameFound fields (.list items) (.list items') := by
  by_cases hlength : items.length ≤ fields.length
  · have hslots : ∀ l : List Datum, l.length ≤ fields.length →
        slots? (fields.map Field.name) (.list l) =
          some ⟨true, padded (fields.map Field.name) l⟩ := by
      intro l hl
      rw [slots?, List.length_map, if_pos hl]
    refine .inr ⟨_, _, hslots items hlength, hslots items' (hfew.2 hlength), rfl, ?_⟩
    intro index field hfield
    have hindex : index < (fields.map Field.name).length := by
      rw [List.length_map]
      exact (List.getElem?_eq_some_iff.1 hfield).1
    rw [slot_padded hindex, slot_padded hindex]
    exact hslot index field hfield
  · have hslots : ∀ l : List Datum, ¬ l.length ≤ fields.length →
        slots? (fields.map Field.name) (.list l) = none := by
      intro l hl
      rw [slots?, List.length_map, if_neg hl]
    exact .inl ⟨hslots items hlength, hslots items' (mt hfew.1 hlength)⟩

/-- The fields of two records that say the same: none in either, or the same in each of them. -/
theorem slots?_restated {d d' : Datum} (h : SameRecord fields d d')
    (hnames : (fields.map Field.name).Nodup) : SameFound fields d d' := by
  cases h with
  | unchanged => exact .refl fields d
  | byName hmembers hentries hentries' =>
      -- both maps are filed as their members are, whatever stands around these
      have hsublist := hmembers.sublist_names
      exact .inr ⟨_, _, hentries.slots?_eq hnames hsublist.1,
        hentries'.slots?_eq hnames hsublist.2, sameSlots_names (hmembers.sameSlot hnames)⟩
  | @byPosition items items' hlength hitems =>
      refine sameFound_lists (by rw [hlength]) ?_
      intro index field hfield
      -- the lists are equally long, so a field is given by both of them or by neither
      rcases Nat.lt_or_ge index items.length with hitem | hmissing
      · have hitem' : index < items'.length := by omega
        rw [List.getElem?_eq_getElem hitem, List.getElem?_eq_getElem hitem']
        exact .both (hitems index field _ _ hfield (List.getElem?_eq_getElem hitem)
          (List.getElem?_eq_getElem hitem'))
      · rw [List.getElem?_eq_none hmissing, List.getElem?_eq_none (by omega)]
        exact .absent

end Found

/-! ## Reading the same -/

section Reading

variable {α : Type} {fields : List Field} {s s' : Slots} {name : String} {value : Restating}

theorem SameSlots.required?_eq (h : SameSlots fields s s') (index : Nat)
    {read : Datum → Option α} (hfield : fields[index]? = some ⟨name, .required, value⟩)
    (hread : Respects value read) : s'.required? index read = s.required? index read := by
  have hslot := h.slot index _ hfield
  unfold Slots.required?
  -- only what the two slots hold counts from here on
  generalize s.slot index = o at hslot ⊢
  generalize s'.slot index = o' at hslot ⊢
  cases hslot with
  | absent => rfl
  | both hsame => exact hread hsame
  | dropped _ homits => exact homits.elim
  | added _ homits => exact homits.elim

theorem SameSlots.optional?_eq (h : SameSlots fields s s') (index : Nat)
    {read : Datum → Option α} (hfield : fields[index]? = some ⟨name, .optional, value⟩)
    (hread : Respects value read) : s'.optional? index read = s.optional? index read := by
  have hslot := h.slot index _ hfield
  unfold Slots.optional?
  rw [h.positional]
  generalize s.slot index = o at hslot ⊢
  generalize s'.slot index = o' at hslot ⊢
  cases hslot with
  | absent => rfl
  | @both d d' hsame =>
      -- what is there says something else than nil, and so does what restates it
      have hnil := value.nil_iff hsame
      by_cases hd : d = .nil
      · rw [hd, hnil.1 hd]
      · have hd' : d' ≠ .nil := fun e => hd (hnil.2 e)
        simp [hread hsame]
  | dropped hlist homits =>
      cases homits
      have hnamed : s.positional = false := by simpa using hlist
      simp [hnamed]
  | added hlist homits =>
      cases homits
      have hnamed : s.positional = false := by simpa using hlist
      simp [hnamed]

theorem SameSlots.defaulted?_eq (h : SameSlots fields s s') (index : Nat)
    {read : Datum → Option (List α)} (hfield : fields[index]? = some ⟨name, .defaulted, value⟩)
    (hread : Respects value read) (hempty : read (.list []) = some []) :
    s'.defaulted? index read = s.defaulted? index read := by
  have hslot := h.slot index _ hfield
  unfold Slots.defaulted?
  generalize s.slot index = o at hslot ⊢
  generalize s'.slot index = o' at hslot ⊢
  cases hslot with
  | absent => rfl
  | both hsame => exact hread hsame
  | dropped _ homits =>
      cases homits
      exact hempty.symm
  | added _ homits =>
      cases homits
      exact hempty

/-- A record is read alike when what is found in its fields is. -/
theorem SameFound.bind_slots? {d d' : Datum} {names : List String} {body : Slots → Option α}
    (h : SameFound fields d d') (hfields : fields.map Field.name = names)
    (hbody : ∀ s s', SameSlots fields s s' → body s' = body s) :
    (slots? names d' >>= body) = (slots? names d >>= body) := by
  subst hfields
  rcases h with ⟨hnone, hnone'⟩ | ⟨s, s', hs, hs', hsame⟩
  · simp only [hnone, hnone']
  · simp only [hs, hs']
    exact hbody s s' hsame

theorem respects_record {names : List String} {body : Slots → Option α}
    (hfields : fields.map Field.name = names) (hnames : names.Nodup)
    (hbody : ∀ s s', SameSlots fields s s' → body s' = body s) :
    Respects (.record fields) fun d => slots? names d >>= body := by
  intro d d' h
  exact (slots?_restated h (hfields ▸ hnames)).bind_slots? hfields hbody

end Reading

end Datum
end RubyIndex
