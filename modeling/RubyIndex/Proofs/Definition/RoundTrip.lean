import RubyIndex.Definition.Codec
import RubyIndex.Proofs.Datum.Fields
import RubyIndex.Proofs.Store.Lookup

/-!
# The data form of definitions is read back

A record is written as a map with all its fields in order, and read field by field.  Whichever way
natural numbers are marked, reading a definition gives back what was written.

* `Datum.slots?_record`, the fields of a record as they were written;
* `Datum.required?_of`, `Datum.optional?_of`, `Datum.defaulted?_of`, one field;
* `Definition.ofDatum?_toJson`, put together from one lemma for each record.
-/

namespace RubyIndex

variable {mark : Nat → Datum}

/-! ## Written data -/

namespace Json

theorem toData_eq_map (mark : Nat → Datum) (items : List Json) :
    toData mark items = items.map (toDatum mark) := by
  induction items with
  | nil => rfl
  | cons item items ih => simp [toData, ih]

theorem toEntries_eq_map (mark : Nat → Datum) (members : List (String × Json)) :
    toEntries mark members = members.map fun m => (.text m.1, toDatum mark m.2) := by
  induction members with
  | nil => rfl
  | cons member members ih => simp [toEntries, ih]

/-- The members of an object, each with the data it stands for. -/
def memberData (mark : Nat → Datum) (members : List (String × Json)) : Assoc String Datum :=
  members.map fun m => (m.1, m.2.toDatum mark)

@[simp] theorem keys_memberData (members : List (String × Json)) :
    (memberData mark members).keys = members.map Prod.fst := by
  simp [memberData, Assoc.keys]

theorem toDatum_object (members : List (String × Json)) :
    (object members).toDatum mark =
      .map ((memberData mark members).map fun m => (.text m.1, m.2)) := by
  simp [toDatum, toEntries_eq_map, memberData]

end Json

namespace Datum

/-- A record that was written with all its fields has them in order. -/
theorem slots?_record {names : List String} {members : List (String × Json)}
    (hfields : members.map Prod.fst = names) (hnames : names.Nodup) :
    slots? names ((Json.object members).toDatum mark) =
      some ⟨false, members.map fun m => some (m.2.toDatum mark)⟩ := by
  subst hfields
  have hdistinct : (Json.memberData mark members).keys.Nodup := by
    rw [Json.keys_memberData]
    exact hnames
  rw [Json.toDatum_object,
    slots?_texts hnames fun name _ => List.nodup_iff_count.1 hdistinct name, List.map_map]
  congr 2
  refine List.map_congr_left ?_
  intro m hm
  -- no two fields share a name, so the field found is the one written
  exact Assoc.find?_of_mem hdistinct (List.mem_map.2 ⟨m, hm, rfl⟩)

/-! ## Fields -/

section Fields

variable {α β : Type} {s : Slots} {index : Nat} {read : Datum → Option α}

/-- Reading goes on with what a step gives. -/
theorem bind_some {o : Option α} {next : α → Option β} {a : α} {b : β} (h : o = some a)
    (hnext : next a = some b) : (o >>= next) = some b := by
  rw [h]
  exact hnext

theorem required?_of {d : Datum} {a : α} (hslot : s.slot index = some d) (h : read d = some a) :
    s.required? index read = some a := by
  simp [Slots.required?, hslot, h]

theorem defaulted?_of {read : Datum → Option (List α)} {d : Datum} {items : List α}
    (hslot : s.slot index = some d) (h : read d = some items) :
    s.defaulted? index read = some items := by
  simp [Slots.defaulted?, hslot, h]

/-- What is there is not written as nil, so it cannot be taken for absent. -/
theorem optional?_of {write : α → Json} {o : Option α}
    (hslot : s.slot index = some ((Json.ofOption write o).toDatum mark))
    (h : ∀ a, read ((write a).toDatum mark) = some a)
    (hnil : ∀ a, (write a).toDatum mark ≠ .nil) : s.optional? index read = some o := by
  unfold Slots.optional?
  rw [hslot]
  cases o with
  | none => rfl
  | some a =>
      have hne := hnil a
      simp only [Json.ofOption]
      rw [h a, Option.map_some]

theorem listOf?_ofList {write : α → Json} {items : List α}
    (h : ∀ a ∈ items, read ((write a).toDatum mark) = some a) :
    listOf? read ((Json.ofList write items).toDatum mark) = some items := by
  have hmapM : (items.map fun a => (write a).toDatum mark).mapM read = some items := by
    induction items with
    | nil => rfl
    | cons a items ih =>
        have hitems := ih fun b hb => h b (List.mem_cons_of_mem _ hb)
        rw [List.map_cons, List.mapM_cons, h a List.mem_cons_self, hitems]
        rfl
  simpa [listOf?, Json.ofList, Json.toDatum, Json.toData_eq_map, list?, Function.comp_def]
    using hmapM

theorem listOf?_strings (items : List String) :
    listOf? text? ((Json.strings items).toDatum mark) = some items :=
  listOf?_ofList fun _ _ => rfl

theorem optional?_string {o : Option String}
    (hslot : s.slot index = some ((Json.ofOption .string o).toDatum mark)) :
    s.optional? index text? = some o :=
  optional?_of hslot (fun _ => rfl) (fun _ h => by cases h)

theorem naturalBelow?_natural (hmark : ∀ n, (mark n).natural? = some n) {bound n : Nat}
    (h : n < bound) : naturalBelow? bound ((Json.natural n).toDatum mark) = some n := by
  have hn : ((Json.natural n).toDatum mark).natural? = some n := hmark n
  simp [naturalBelow?, hn, h]

end Fields

end Datum

open Datum (bind_some slots?_record required?_of optional?_of optional?_string defaulted?_of
  listOf?_ofList listOf?_strings naturalBelow?_natural)

/-! ## Records -/

theorem Position.ofDatum?_toJson (hmark : ∀ n, (mark n).natural? = some n) (p : Position) :
    ofDatum? (p.toJson.toDatum mark) = some p := by
  refine bind_some (slots?_record rfl (by decide)) ?_
  refine bind_some (required?_of rfl (naturalBelow?_natural hmark p.line.toNat_lt)) ?_
  refine bind_some (required?_of rfl (naturalBelow?_natural hmark p.column.toNat_lt)) ?_
  simp

theorem Range.ofDatum?_toJson (hmark : ∀ n, (mark n).natural? = some n) (r : Range) :
    ofDatum? (r.toJson.toDatum mark) = some r := by
  refine bind_some (slots?_record rfl (by decide)) ?_
  refine bind_some (required?_of rfl (r.start.ofDatum?_toJson hmark)) ?_
  refine bind_some (required?_of rfl (r.stop.ofDatum?_toJson hmark)) ?_
  rfl

theorem Location.ofDatum?_toJson (hmark : ∀ n, (mark n).natural? = some n) (l : Location) :
    ofDatum? (l.toJson.toDatum mark) = some l := by
  refine bind_some (slots?_record rfl (by decide)) ?_
  refine bind_some (required?_of rfl (l.range.ofDatum?_toJson hmark)) ?_
  refine bind_some (required?_of rfl rfl) ?_
  rfl

theorem Reference.ofDatum?_toJson (r : Reference) : ofDatum? (r.toJson.toDatum mark) = some r := by
  refine bind_some (slots?_record rfl (by decide)) ?_
  refine bind_some (required?_of rfl rfl) ?_
  refine bind_some (required?_of rfl (listOf?_strings r.nesting)) ?_
  rfl

theorem Constant.ofDatum?_toJson (hmark : ∀ n, (mark n).natural? = some n) (c : Constant) :
    ofDatum? (c.toJson.toDatum mark) = some c := by
  refine bind_some (slots?_record rfl (by decide)) ?_
  refine bind_some (required?_of rfl rfl) ?_
  refine bind_some (optional?_string rfl) ?_
  refine bind_some
    (optional?_of rfl (fun l => l.ofDatum?_toJson hmark) (fun _ h => by cases h)) ?_
  rfl

theorem Module.ofDatum?_toJson (hmark : ∀ n, (mark n).natural? = some n) (m : Module) :
    ofDatum? (m.toJson.toDatum mark) = some m := by
  refine bind_some (slots?_record rfl (by decide)) ?_
  refine bind_some (required?_of rfl (m.constant.ofDatum?_toJson hmark)) ?_
  refine bind_some (defaulted?_of rfl (listOf?_strings m.includes)) ?_
  refine bind_some (defaulted?_of rfl (listOf?_ofList fun r _ => r.ofDatum?_toJson)) ?_
  refine bind_some (defaulted?_of rfl (listOf?_strings m.prepends)) ?_
  refine bind_some (defaulted?_of rfl (listOf?_ofList fun r _ => r.ofDatum?_toJson)) ?_
  rfl

theorem Class.ofDatum?_toJson (hmark : ∀ n, (mark n).natural? = some n) (c : Class) :
    ofDatum? (c.toJson.toDatum mark) = some c := by
  refine bind_some (slots?_record rfl (by decide)) ?_
  refine bind_some (required?_of rfl (c.base.ofDatum?_toJson hmark)) ?_
  refine bind_some (optional?_string rfl) ?_
  refine bind_some
    (optional?_of rfl (fun r => r.ofDatum?_toJson) (fun _ h => by cases h)) ?_
  rfl

theorem MethodKind.ofDatum?_toJson (k : MethodKind) :
    ofDatum? (k.toJson.toDatum mark) = some k := by
  cases k <;> rfl

theorem Signature.ofDatum?_toJson (s : Signature) : ofDatum? (s.toJson.toDatum mark) = some s := by
  refine bind_some (slots?_record rfl (by decide)) ?_
  refine bind_some (required?_of rfl rfl) ?_
  refine bind_some (required?_of rfl rfl) ?_
  rfl

theorem Parameter.ofDatum?_toJson (p : Parameter) : ofDatum? (p.toJson.toDatum mark) = some p := by
  refine bind_some (slots?_record rfl (by decide)) ?_
  refine bind_some (required?_of rfl rfl) ?_
  refine bind_some (required?_of rfl (listOf?_strings p.types)) ?_
  rfl

theorem Method.ofDatum?_toJson (hmark : ∀ n, (mark n).natural? = some n) (m : Method) :
    ofDatum? (m.toJson.toDatum mark) = some m := by
  refine bind_some (slots?_record rfl (by decide)) ?_
  refine bind_some (required?_of rfl m.kind.ofDatum?_toJson) ?_
  refine bind_some (required?_of rfl rfl) ?_
  refine bind_some (required?_of rfl rfl) ?_
  refine bind_some (required?_of rfl (listOf?_ofList fun s _ => s.ofDatum?_toJson)) ?_
  refine bind_some (defaulted?_of rfl (listOf?_ofList fun p _ => p.ofDatum?_toJson)) ?_
  refine bind_some (optional?_string rfl) ?_
  refine bind_some
    (optional?_of rfl (fun l => l.ofDatum?_toJson hmark) (fun _ h => by cases h)) ?_
  rfl

/-- Reading gives back the definition that was written, whichever way numbers are marked. -/
theorem Definition.ofDatum?_toJson (hmark : ∀ n, (mark n).natural? = some n) (d : Definition) :
    ofDatum? (d.toJson.toDatum mark) = some d := by
  cases d with
  | ofConstant c => exact congrArg (Option.map ofConstant) (c.ofDatum?_toJson hmark)
  | ofModule m => exact congrArg (Option.map ofModule) (m.ofDatum?_toJson hmark)
  | ofClass c => exact congrArg (Option.map ofClass) (c.ofDatum?_toJson hmark)
  | ofMethod m => exact congrArg (Option.map ofMethod) (m.ofDatum?_toJson hmark)

end RubyIndex
