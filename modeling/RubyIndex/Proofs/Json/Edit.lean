import Mathlib.Data.List.Nodup
import RubyIndex.Proofs.Datum.Shape
import RubyIndex.Proofs.Definition.RoundTrip

/-!
# Edited JSON values

What may be done to a JSON value without changing what is read from it: in any object that is read
as a record, members that are no fields come and change, all members change their order, and null or
an empty array is given for a field that may be left out.

* `Json.Edit`, one edit somewhere in a value of a given shape;
* `Edit.sameFound`, an edited record has the same in each of its fields, and `Edit.sameVariant`,
  `Edit.sameItems`, what an edit does to a variant and to a list;
* `Datum.Idiom.edited`, put together from them: no reader of the shape tells the values apart.
-/

namespace RubyIndex
namespace Json

open Datum (Shape Presence SameFound SameItems SameSlot SameVariant Restating Idiom)

/-- A value that says of a field what its absence says. -/
inductive StandsIn : Presence → Json → Prop
  | null : StandsIn .optional .null
  | empty : StandsIn .defaulted (.array [])

/-- One edit of a value.  Since the members of an object may be put in any order, the edits of a
member are told of the first one. -/
inductive Edit : Shape → Json → Json → Prop
  /-- A member that is no field is added. -/
  | insert {fields : List (String × Presence × Shape)} {members : List (String × Json)}
      (name : String) (value : Json) : name ∉ fields.map Prod.fst →
      Edit (.record fields) (.object members) (.object ((name, value) :: members))
  /-- A member that is no field gets another value. -/
  | replace {fields : List (String × Presence × Shape)} {members : List (String × Json)}
      (name : String) (value value' : Json) : name ∉ fields.map Prod.fst →
      Edit (.record fields) (.object ((name, value) :: members))
        (.object ((name, value') :: members))
  | reorder {fields : List (String × Presence × Shape)} {members members' : List (String × Json)} :
      members.Perm members' → Edit (.record fields) (.object members) (.object members')
  /-- A field that is missing is given what stands for it. -/
  | supply {fields : List (String × Presence × Shape)} {members : List (String × Json)}
      {name : String} {presence : Presence} {shape : Shape} {value : Json} :
      (name, presence, shape) ∈ fields → name ∉ members.map Prod.fst → StandsIn presence value →
      Edit (.record fields) (.object members) (.object ((name, value) :: members))
  /-- The value of a field is edited. -/
  | field {fields : List (String × Presence × Shape)} {members : List (String × Json)}
      {name : String} {presence : Presence} {shape : Shape} {value value' : Json} :
      (name, presence, shape) ∈ fields → Edit shape value value' →
      Edit (.record fields) (.object ((name, value) :: members))
        (.object ((name, value') :: members))
  /-- The value of a field is edited in a record that is given as an array. -/
  | position {fields : List (String × Presence × Shape)} {items : List Json} {index : Nat}
      {name : String} {presence : Presence} {shape : Shape} {value value' : Json} :
      fields[index]? = some (name, presence, shape) → items[index]? = some value →
      Edit shape value value' →
      Edit (.record fields) (.array items) (.array (items.set index value'))
  /-- A list that is missing behind the last item of such a record is given empty. -/
  | append {fields : List (String × Presence × Shape)} {items : List Json} {name : String}
      {shape : Shape} : fields[items.length]? = some (name, .defaulted, shape) →
      Edit (.record fields) (.array items) (.array (items ++ [.array []]))
  | item {item : Shape} {items : List Json} {index : Nat} {value value' : Json} :
      items[index]? = some value → Edit item value value' →
      Edit (.listOf item) (.array items) (.array (items.set index value'))
  /-- The object that names the sort keeps its only member. -/
  | body {sorts : List (String × Shape)} {name : String} {shape : Shape} {value value' : Json} :
      (name, shape) ∈ sorts → Edit shape value value' →
      Edit (.variant sorts) (.object [(name, value)]) (.object [(name, value')])

variable {mark : Nat → Datum}

theorem StandsIn.omits {presence : Presence} {j : Json} (h : StandsIn presence j) :
    presence.Omits (j.toDatum mark) := by
  cases h <;> rfl

/-- Only objects and arrays are edited. -/
theorem Edit.toDatum_ne_nil {shape : Shape} {j j' : Json} (h : Edit shape j j') :
    j.toDatum mark ≠ .nil ∧ j'.toDatum mark ≠ .nil := by
  cases h <;> simp [toDatum]

/-- The data of a value before and after an edit. -/
inductive Edited (mark : Nat → Datum) (shape : Shape) : Datum → Datum → Prop
  | unchanged (d : Datum) : Edited mark shape d d
  | once {j j' : Json} : Edit shape j j' → Edited mark shape (j.toDatum mark) (j'.toDatum mark)

/-- Data of this shape that say the same, as one is an edit of the other. -/
def editing (mark : Nat → Datum) (shape : Shape) : Restating where
  Holds := Edited mark shape
  refl := .unchanged
  nil_iff h := by
    cases h with
    | unchanged => rfl
    | once h => exact iff_of_false h.toDatum_ne_nil.1 h.toDatum_ne_nil.2

/-! ## Objects -/

section Objects

variable {fields : List (String × Presence × Shape)} {members members' : List (String × Json)}

theorem find?_memberData_cons (key name : String) (value : Json) :
    Assoc.find? key (memberData mark ((name, value) :: members)) =
      if name = key then some (value.toDatum mark) else Assoc.find? key (memberData mark members) :=
  rfl

/-- Objects with the same fields, each of them once or each of them more than once. -/
theorem sameFound_objects (hnames : (fields.map Prod.fst).Nodup)
    (hcount : ∀ f ∈ fields,
      (members'.map Prod.fst).count f.1 ≤ 1 ↔ (members.map Prod.fst).count f.1 ≤ 1)
    (hslot : ∀ f ∈ fields, (members.map Prod.fst).count f.1 ≤ 1 →
      SameSlot ⟨f.1, f.2.1, editing mark f.2.2⟩ false (Assoc.find? f.1 (memberData mark members))
        (Assoc.find? f.1 (memberData mark members'))) :
    SameFound (Shape.toFields (editing mark) fields) ((object members).toDatum mark)
      ((object members').toDatum mark) := by
  have hfields : (Shape.toFields (editing mark) fields).map Datum.Field.name =
      fields.map Prod.fst := by
    simp [Shape.toFields, Function.comp_def]
  rw [toDatum_object, toDatum_object]
  refine Datum.sameFound_texts (hfields ▸ hnames) ?_ ?_
  · intro name hname
    rcases List.mem_map.1 (hfields ▸ hname) with ⟨f, hf, rfl⟩
    simpa using hcount f hf
  · intro field hfield honce
    rcases List.mem_map.1 hfield with ⟨f, hf, rfl⟩
    exact hslot f hf (by simpa using honce)

end Objects

/-! ## Arrays -/

section Arrays

variable {fields : List (String × Presence × Shape)}

/-- Arrays that give the same fields by position. -/
theorem sameFound_arrays {items items' : List Json}
    (hfew : items'.length ≤ fields.length ↔ items.length ≤ fields.length)
    (hslot : ∀ (index : Nat) (f : String × Presence × Shape), fields[index]? = some f →
      SameSlot ⟨f.1, f.2.1, editing mark f.2.2⟩ true (items[index]?.map (toDatum mark))
        (items'[index]?.map (toDatum mark))) :
    SameFound (Shape.toFields (editing mark) fields) ((array items).toDatum mark)
      ((array items').toDatum mark) := by
  simp only [toDatum, toData_eq_map]
  refine Datum.sameFound_lists (by simpa [Shape.toFields] using hfew) ?_
  intro index field hfield
  rw [Shape.toFields, List.getElem?_map] at hfield
  rcases Option.map_eq_some_iff.1 hfield with ⟨f, hf, rfl⟩
  rw [List.getElem?_map, List.getElem?_map]
  exact hslot index f hf

end Arrays

/-! ## What an edit does -/

/-- An edited record has the same in each of its fields.  An edit further inside leaves the record
as it is but for one field, and there the values are edits of each other again. -/
theorem Edit.sameFound {fields : List (String × Presence × Shape)} {j j' : Json}
    (hnames : (fields.map Prod.fst).Nodup) (h : Edit (.record fields) j j') :
    SameFound (Shape.toFields (editing mark) fields) (j.toDatum mark) (j'.toDatum mark) := by
  have hother : ∀ {name : String}, name ∉ fields.map Prod.fst → ∀ f ∈ fields, ¬ name = f.1 :=
    fun hname f hf e => hname (e ▸ List.mem_map_of_mem hf)
  have hsame : ∀ {f g : String × Presence × Shape}, f ∈ fields → g ∈ fields → f.1 = g.1 → f = g :=
    fun hf hg => List.inj_on_of_nodup_map hnames hf hg
  cases h with
  | @insert _ members name value hname =>
      refine sameFound_objects hnames ?_ ?_
      · intro f hf
        simp [hother hname f hf]
      · intro f hf _
        rw [find?_memberData_cons, if_neg (hother hname f hf)]
        exact .refl ..
  | @replace _ members name value value' hname =>
      refine sameFound_objects hnames (fun f hf => Iff.rfl) ?_
      intro f hf _
      rw [find?_memberData_cons, find?_memberData_cons, if_neg (hother hname f hf),
        if_neg (hother hname f hf)]
      exact .refl ..
  | @reorder _ members members' hperm =>
      -- a field that comes once is found wherever it stands
      have hdata : (memberData mark members).Perm (memberData mark members') := hperm.map _
      refine sameFound_objects hnames ?_ ?_
      · intro f hf
        rw [(hperm.map Prod.fst).count_eq]
      · intro f hf honce
        rw [Assoc.find?_perm hdata (by simpa using honce)]
        exact .refl ..
  | @supply _ members name presence shape value hfield hmissing hvalue =>
      refine sameFound_objects hnames ?_ ?_
      · intro f hf
        by_cases hname : name = f.1
        · -- the field was missing, so now it comes once
          simp [← hname, List.count_eq_zero.2 hmissing]
        · simp [hname]
      · intro f hf _
        rw [find?_memberData_cons]
        by_cases hname : name = f.1
        · cases hsame hfield hf hname
          rw [if_pos rfl, Assoc.find?_of_not_mem (by simpa using hmissing)]
          exact .added (by simp) hvalue.omits
        · rw [if_neg hname]
          exact .refl ..
  | @field _ members name presence shape value value' hfield hedit =>
      refine sameFound_objects hnames (fun f hf => Iff.rfl) ?_
      intro f hf _
      rw [find?_memberData_cons, find?_memberData_cons]
      by_cases hname : name = f.1
      · -- the shape of the edited value is the one its field has
        cases hsame hfield hf hname
        rw [if_pos rfl, if_pos rfl]
        exact .both (.once hedit)
      · rw [if_neg hname, if_neg hname]
        exact .refl ..
  | @position _ items place name presence shape value value' hfield hvalue hedit =>
      refine sameFound_arrays (by simp) ?_
      intro index f hf
      by_cases hat : place = index
      · subst hat
        cases hfield.symm.trans hf
        rw [List.getElem?_set_self (List.getElem?_eq_some_iff.1 hvalue).1, hvalue]
        exact .both (.once hedit)
      · rw [List.getElem?_set_ne hat]
        exact .refl ..
  | @append _ items name shape hfield =>
      -- the array was shorter than the record, so there is place for one item more
      have hlength : items.length < fields.length := (List.getElem?_eq_some_iff.1 hfield).1
      refine sameFound_arrays ?_ ?_
      · simp only [List.length_append, List.length_singleton]
        omega
      · intro index f hf
        rcases Nat.lt_trichotomy index items.length with hitem | rfl | hbehind
        · rw [List.getElem?_append_left hitem]
          exact .refl ..
        · cases hfield.symm.trans hf
          rw [List.getElem?_eq_none (Nat.le_refl _), List.getElem?_concat_length]
          exact .added (fun _ => rfl) rfl
        · rw [List.getElem?_eq_none (Nat.le_of_lt hbehind),
            List.getElem?_eq_none (by rw [List.length_append]; exact hbehind)]
          exact .absent

theorem Edit.sameItems {item : Shape} {j j' : Json} (h : Edit (.listOf item) j j') :
    SameItems (editing mark item) (j.toDatum mark) (j'.toDatum mark) := by
  cases h with
  | @item _ items place value value' hvalue hedit =>
      simp only [toDatum, toData_eq_map]
      refine .items (List.forall₂_iff_get.2 ⟨by simp, ?_⟩)
      intro index hindex hindex'
      simp only [List.get_eq_getElem, List.getElem_map, List.getElem_set]
      by_cases hat : place = index
      · subst hat
        rw [if_pos rfl, (List.getElem?_eq_some_iff.1 hvalue).2]
        exact .once hedit
      · rw [if_neg hat]
        exact .unchanged _

theorem Edit.sameVariant {sorts : List (String × Shape)} {j j' : Json}
    (h : Edit (.variant sorts) j j') :
    SameVariant (sorts.map fun s => (s.1, editing mark s.2)) (j.toDatum mark)
      (j'.toDatum mark) := by
  cases h with
  | @body _ name shape value value' hsort hedit =>
      exact .body (List.mem_map.2 ⟨_, hsort, rfl⟩) (.once hedit)

end Json

/-- The idiom of edited JSON values. -/
def Datum.Idiom.edited (mark : Nat → Datum) : Idiom where
  restating := Json.editing mark
  eq_of_scalar h := by
    cases h with
    | unchanged => rfl
    | once h => cases h
  sameNumber h := by
    cases h with
    | unchanged => exact .unchanged _
    | once h => cases h
  sameItems h := by
    cases h with
    | unchanged => exact .unchanged _
    | once h => exact h.sameItems
  sameFound hnames h := by
    cases h with
    | unchanged => exact .refl ..
    | once h => exact h.sameFound hnames
  sameVariant h := by
    cases h with
    | unchanged => exact .unchanged _
    | once h => exact h.sameVariant

end RubyIndex
