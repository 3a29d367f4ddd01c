import RubyIndex.Datum
import RubyIndex.Store.Assoc

/-!
# Fields of records

A record is read from a map by filing each entry under the field its key names.

* `Datum.fileEntries?_texts`, what is filed from a map whose keys are texts, and
  `Datum.slots?_texts`: each field holds the entry of its name, in whatever order the entries come
  and whatever else the map holds; `Datum.slots?_texts_eq_none`, unless a field is named twice;
* `Datum.fileEntries?_append`, a record with more fields files the first of them as the record
  without them does.
-/

namespace RubyIndex
namespace Datum

/-! ## Names of fields -/

theorem indexOf?_eq_none_iff {name : String} {names : List String} :
    indexOf? name names = none ↔ name ∉ names := by
  induction names with
  | nil => simp [indexOf?]
  | cons n names ih =>
      simp only [indexOf?, List.mem_cons, not_or]
      by_cases h : n = name
      · simp [h]
      · have h' : ¬ name = n := fun e => h e.symm
        simp [h, h', ih]

theorem indexOf?_lt {name : String} {names : List String} {index : Nat}
    (h : indexOf? name names = some index) : index < names.length := by
  induction names generalizing index with
  | nil => simp [indexOf?] at h
  | cons n names ih =>
      simp only [indexOf?] at h
      split at h
      · cases h
        simp
      · rcases Option.map_eq_some_iff.1 h with ⟨i, hi, rfl⟩
        have := ih hi
        simp only [List.length_cons]
        omega

/-- A name among the first ones is found there, any other one behind them. -/
theorem indexOf?_append (name : String) (names more : List String) :
    indexOf? name (names ++ more) =
      (indexOf? name names).or ((indexOf? name more).map (· + names.length)) := by
  induction names with
  | nil => simp [indexOf?]
  | cons n names ih =>
      simp only [List.cons_append, indexOf?, ih]
      by_cases h : n = name
      · simp [h]
      · simp only [h, if_false, List.length_cons]
        cases indexOf? name names with
        | some index => rfl
        | none =>
            cases indexOf? name more with
            | none => rfl
            | some index => simp [Nat.add_assoc]

/-! ## Maps with texts as keys -/

section Texts

variable {names : List String}

theorem fill?_names {f : String → Option Datum} {name : String} {index : Nat} (value : Datum)
    (hnames : names.Nodup) (hindex : indexOf? name names = some index) (hempty : f name = none) :
    fill? (names.map f) index value =
      some (names.map fun n => if n = name then some value else f n) := by
  induction names generalizing index with
  | nil => simp [indexOf?] at hindex
  | cons n names ih =>
      rcases List.nodup_cons.1 hnames with ⟨hn, hnodup⟩
      simp only [indexOf?] at hindex
      split at hindex
      · -- the field stands here and, its name being distinct, nowhere else
        rename_i heq
        subst heq
        cases hindex
        have hrest : ∀ n' ∈ names, f n' = if n' = n then some value else f n' := by
          intro n' hn'
          have hne : n' ≠ n := fun e => hn (e ▸ hn')
          rw [if_neg hne]
        simp only [List.map_cons, hempty, fill?, if_true]
        rw [List.map_congr_left hrest]
      · rename_i hne
        rcases Option.map_eq_some_iff.1 hindex with ⟨i, hi, rfl⟩
        simp only [List.map_cons, fill?, ih hnodup hi, Option.map_some, hne, if_false]

/-- Entries fill the fields that were empty; no field may be named twice. -/
theorem fileEntries?_texts {f : String → Option Datum} {members : List (String × Datum)}
    (hnames : names.Nodup) (honce : ∀ name ∈ names, (members.map Prod.fst).count name ≤ 1)
    (hempty : ∀ name ∈ names, name ∈ members.map Prod.fst → f name = none) :
    fileEntries? names (names.map f) (members.map fun m => (.text m.1, m.2)) =
      some (names.map fun name => (f name).or (Assoc.find? name members)) := by
  induction members generalizing f with
  | nil => simp [fileEntries?, Assoc.find?]
  | cons member members ih =>
      rcases member with ⟨key, value⟩
      have honce' : ∀ name ∈ names, (members.map Prod.fst).count name ≤ 1 := by
        intro name hname
        have := honce name hname
        simp only [List.map_cons, List.count_cons] at this
        omega
      simp only [List.map_cons, fileEntries?, key?]
      cases hindex : indexOf? key names with
      | none =>
          -- an unknown key, which is skipped
          have hkey := indexOf?_eq_none_iff.1 hindex
          have hrest := ih honce' fun name hname hmem =>
            hempty name hname (List.mem_cons_of_mem _ hmem)
          simp only [Option.map_none, Option.getD_none, hrest]
          congr 1
          refine List.map_congr_left ?_
          intro name hname
          have hne : ¬ key = name := fun e => hkey (e ▸ hname)
          simp [Assoc.find?, hne]
      | some index =>
          have hkey : key ∈ names := by
            rw [← Decidable.not_not (p := key ∈ names), ← indexOf?_eq_none_iff, hindex]
            exact Option.some_ne_none index
          -- the key does not come again, so its field stays as it is filled now
          have hgone : key ∉ members.map Prod.fst := by
            have := honce key hkey
            simp only [List.map_cons, List.count_cons, beq_self_eq_true, if_true] at this
            exact List.count_eq_zero.1 (by omega)
          have hfill := fill?_names value hnames hindex (hempty key hkey List.mem_cons_self)
          have hrest := ih (f := fun name => if name = key then some value else f name) honce' (by
            intro name hname hmem
            have hne : name ≠ key := fun e => hgone (e ▸ hmem)
            simpa [hne] using hempty name hname (List.mem_cons_of_mem _ hmem))
          simp only [Option.map_some, Option.getD_some, hfill, Option.bind_some, hrest]
          congr 1
          refine List.map_congr_left ?_
          intro name hname
          by_cases hne : name = key
          · subst hne
            have hnone := hempty name hname List.mem_cons_self
            simp [Assoc.find?, hnone]
          · have hne' : ¬ key = name := fun e => hne e.symm
            simp [Assoc.find?, hne, hne']

/-- A field that holds a value already is not filled again. -/
theorem fill?_names_eq_none {f : String → Option Datum} {name : String} {index : Nat}
    (value : Datum) (hindex : indexOf? name names = some index) (hfull : f name ≠ none) :
    fill? (names.map f) index value = none := by
  induction names generalizing index with
  | nil => simp [indexOf?] at hindex
  | cons n names ih =>
      simp only [indexOf?] at hindex
      split at hindex
      · rename_i heq
        subst heq
        cases hindex
        rcases Option.ne_none_iff_exists'.1 hfull with ⟨d, hd⟩
        simp [fill?, hd]
      · rcases Option.map_eq_some_iff.1 hindex with ⟨i, hi, rfl⟩
        simp [fill?, ih hi]

/-- Entries that name a field twice are refused, and so is one for a field that is filled. -/
theorem fileEntries?_texts_eq_none {f : String → Option Datum} {members : List (String × Datum)}
    {name : String} (hnames : names.Nodup) (hname : name ∈ names)
    (hmany : 1 < (members.map Prod.fst).count name + (f name).toList.length) :
    fileEntries? names (names.map f) (members.map fun m => (.text m.1, m.2)) = none := by
  induction members generalizing f with
  | nil =>
      -- the slot alone holds one value at most
      have : (f name).toList.length ≤ 1 := by cases f name <;> simp
      simp only [List.map_nil, List.count_nil] at hmany
      omega
  | cons member members ih =>
      rcases member with ⟨key, value⟩
      simp only [List.map_cons, fileEntries?, key?]
      cases hindex : indexOf? key names with
      | none =>
          have hne : ¬ key = name := fun e => indexOf?_eq_none_iff.1 hindex (e ▸ hname)
          simp only [List.map_cons, List.count_cons, beq_iff_eq, hne, if_false] at hmany
          simpa using ih hmany
      | some index =>
          by_cases hempty : f key = none
          · -- what the entry adds to its slot it takes from those that follow
            have hrest : 1 < (members.map Prod.fst).count name +
                (if name = key then some value else f name).toList.length := by
              by_cases hne : name = key
              · subst hne
                simpa [List.count_cons, hempty] using hmany
              · have hne' : ¬ key = name := fun e => hne e.symm
                simpa [List.count_cons, hne, hne'] using hmany
            have hfill := fill?_names value hnames hindex hempty
            simpa [hfill] using ih hrest
          · simp [fill?_names_eq_none value hindex hempty]

/-- The fields of a record in a map: each one holds what stands under its name. -/
theorem slots?_texts {members : List (String × Datum)} (hnames : names.Nodup)
    (honce : ∀ name ∈ names, (members.map Prod.fst).count name ≤ 1) :
    slots? names (.map (members.map fun m => (.text m.1, m.2))) =
      some ⟨false, names.map fun name => Assoc.find? name members⟩ := by
  have hfiled := fileEntries?_texts (f := fun _ => none) hnames honce (fun _ _ _ => rfl)
  simp only [slots?, hfiled, Option.map_some, Option.none_or]

/-- A map that names a field twice is no record. -/
theorem slots?_texts_eq_none {members : List (String × Datum)} {name : String}
    (hnames : names.Nodup) (hname : name ∈ names) (htwice : 1 < (members.map Prod.fst).count name) :
    slots? names (.map (members.map fun m => (.text m.1, m.2))) = none := by
  have hmany : 1 < (members.map Prod.fst).count name + (none : Option Datum).toList.length := htwice
  have hfiled := fileEntries?_texts_eq_none (f := fun _ => none) hnames hname hmany
  simp only [slots?, hfiled, Option.map_none]

end Texts

/-- Entries that name no field of a record leave its fields as they are. -/
theorem fileEntries?_unknown {names : List String} {before : List (Datum × Datum)}
    (h : ∀ e ∈ before, key? names e.1 = some .unknown) (slots : List (Option Datum))
    (entries : List (Datum × Datum)) :
    fileEntries? names slots (before ++ entries) = fileEntries? names slots entries := by
  induction before with
  | nil => rfl
  | cons e before ih =>
      have hkey := h e List.mem_cons_self
      have hbefore := ih fun e' he' => h e' (List.mem_cons_of_mem _ he')
      simp only [List.cons_append, fileEntries?, hkey, hbefore]

/-! ## More fields -/

/-- What a key says when only the first fields count. -/
def Key.among (count : Nat) : Key → Key
  | .field index => if index < count then .field index else .unknown
  | .unknown => .unknown

theorem among_indexOf? (name : String) (names more : List String) :
    (((indexOf? name (names ++ more)).map Key.field).getD .unknown).among names.length =
      ((indexOf? name names).map Key.field).getD .unknown := by
  rw [indexOf?_append]
  cases hindex : indexOf? name names with
  | some index =>
      have hlt := indexOf?_lt hindex
      simp [Key.among, hlt]
  | none => cases indexOf? name more <;> simp [Key.among]

/-- With more fields, a key says the same about the first ones. -/
theorem key?_eq_among (names more : List String) (d : Datum) :
    key? names d = (key? (names ++ more) d).map (Key.among names.length) := by
  cases d with
  | unsigned n =>
      simp only [key?, Option.map_some, List.length_append]
      by_cases h : n < names.length
      · have h' : n < names.length + more.length := by omega
        simp [Key.among, h, h']
      · by_cases h' : n < names.length + more.length <;> simp [Key.among, h, h']
  | text s => simp only [key?, Option.map_some, among_indexOf?]
  | binary bytes =>
      simp only [key?, Option.map_some]
      cases String.fromUTF8? (ByteArray.mk bytes.toArray) with
      | none => rfl
      | some s => exact congrArg some (among_indexOf? s names more).symm
  | garbled => rfl
  | nil | bool | signed | real | list | map | extension => rfl

theorem length_fill? {slots filled : List (Option Datum)} {index : Nat} {value : Datum}
    (h : fill? slots index value = some filled) : filled.length = slots.length := by
  induction slots generalizing index filled with
  | nil => simp [fill?] at h
  | cons slot rest ih =>
      cases index with
      | zero =>
          cases slot with
          | none =>
              cases h
              rfl
          | some d => simp [fill?] at h
      | succ index =>
          simp only [fill?] at h
          rcases Option.map_eq_some_iff.1 h with ⟨filled', hfilled, rfl⟩
          simp [ih hfilled]

theorem fill?_append {slots more : List (Option Datum)} (index : Nat) (value : Datum) :
    fill? (slots ++ more) index value =
      if index < slots.length then (fill? slots index value).map (· ++ more)
      else (fill? more (index - slots.length) value).map (slots ++ ·) := by
  induction slots generalizing index with
  | nil => simp
  | cons slot rest ih =>
      cases index with
      | zero => cases slot <;> simp [fill?]
      | succ index =>
          have hsub : index + 1 - (rest.length + 1) = index - rest.length := by omega
          simp only [List.cons_append, fill?, ih, List.length_cons, Nat.add_lt_add_iff_right, hsub]
          split <;> simp [Option.map_map, Function.comp_def]

/-- A record with more fields files the entries of the first ones as the record without them. -/
theorem fileEntries?_append {names more : List String} {entries : List (Datum × Datum)}
    {slots slots' filed : List (Option Datum)} (hlength : slots.length = names.length)
    (h : fileEntries? (names ++ more) (slots ++ slots') entries = some filed) :
    ∃ front back, filed = front ++ back ∧ front.length = names.length ∧
      fileEntries? names slots entries = some front := by
  induction entries generalizing slots slots' with
  | nil =>
      simp only [fileEntries?, Option.some.injEq] at h
      exact ⟨slots, slots', h.symm, hlength, rfl⟩
  | cons entry entries ih =>
      rcases entry with ⟨key, value⟩
      simp only [fileEntries?] at h
      have hkey := key?_eq_among names more key
      cases hmore : key? (names ++ more) key with
      | none => simp [hmore] at h
      | some k =>
          rw [hmore] at h hkey
          cases k with
          | unknown =>
              rcases ih hlength h with ⟨front, back, heq, hfront, hfiled⟩
              refine ⟨front, back, heq, hfront, ?_⟩
              simpa [fileEntries?, hkey, Key.among] using hfiled
          | field index =>
              rcases Option.bind_eq_some_iff.1 h with ⟨filled, hfill, hrest⟩
              rw [fill?_append] at hfill
              by_cases hindex : index < names.length
              · -- one of the first fields
                rw [if_pos (by omega)] at hfill
                rcases Option.map_eq_some_iff.1 hfill with ⟨first, hfirst, rfl⟩
                have hlength' := (length_fill? hfirst).trans hlength
                rcases ih hlength' hrest with ⟨front, back, heq, hfront, hfiled⟩
                refine ⟨front, back, heq, hfront, ?_⟩
                simpa [fileEntries?, hkey, Key.among, hindex, hfirst] using hfiled
              · -- one of the others, which the shorter record skips
                rw [if_neg (by omega)] at hfill
                rcases Option.map_eq_some_iff.1 hfill with ⟨last, _, rfl⟩
                rcases ih hlength hrest with ⟨front, back, heq, hfront, hfiled⟩
                refine ⟨front, back, heq, hfront, ?_⟩
                simpa [fileEntries?, hkey, Key.among, hindex] using hfiled

end Datum
end RubyIndex
