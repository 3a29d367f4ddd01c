import RubyIndex.Definition.Codec
import RubyIndex.Proofs.Definition.RoundTrip
import RubyIndex.Proofs.MessagePack.RoundTrip

/-!
# Sizes of definitions

MessagePack writes lengths and counts in at most four bytes, and containers are read to a fixed
depth.  The numbers of a position always fit and the records of a definition are never nested
deeply, so a definition can be written when its texts and lists are short enough.

* `MessagePack.FitsText`, `MessagePack.FitsList`, short enough texts and lists;
* `Definition.Fits`, a definition of which all texts and lists are short enough;
* `Definition.writable`, such a definition can be written.
-/

namespace RubyIndex

open MessagePack (Writable)

/-! ## Texts and lists -/

namespace MessagePack

/-- The bytes of a text can be counted in four bytes. -/
def FitsText (s : String) : Prop :=
  s.utf8ByteSize < UInt32.size

instance (s : String) : Decidable (FitsText s) :=
  inferInstanceAs (Decidable (_ < _))

/-- The items of a list can be counted in four bytes, and each of them fits. -/
def FitsList {α : Type} (fits : α → Prop) (items : List α) : Prop :=
  items.length < UInt32.size ∧ ∀ a ∈ items, fits a

instance {α : Type} (fits : α → Prop) [DecidablePred fits] (items : List α) :
    Decidable (FitsList fits items) :=
  inferInstanceAs (Decidable (_ ∧ _))

theorem writable_string {s : String} (h : FitsText s) (depth : Nat) :
    Writable depth ((Json.string s).toDatum .unsigned) :=
  .text h

theorem writable_natural {n : Nat} (h : n < UInt64.size) (depth : Nat) :
    Writable depth ((Json.natural n).toDatum .unsigned) :=
  .unsigned h

theorem writable_ofOption {α : Type} {write : α → Json} {o : Option α} {depth : Nat}
    (h : ∀ a ∈ o, Writable depth ((write a).toDatum .unsigned)) :
    Writable depth ((Json.ofOption write o).toDatum .unsigned) := by
  cases o with
  | none => exact .nil
  | some a => exact h a rfl

theorem writable_optionalText {o : Option String} (h : ∀ s ∈ o, FitsText s) (depth : Nat) :
    Writable depth ((Json.ofOption .string o).toDatum .unsigned) :=
  writable_ofOption fun s hs => writable_string (h s hs) depth

theorem writable_ofList {α : Type} {fits : α → Prop} {write : α → Json} {items : List α}
    {depth : Nat} (hfits : FitsList fits items)
    (h : ∀ a, fits a → Writable depth ((write a).toDatum .unsigned)) :
    Writable (depth + 1) ((Json.ofList write items).toDatum .unsigned) := by
  unfold Json.ofList
  rw [Json.toDatum, Json.toData_eq_map, List.map_map]
  refine .list (by simpa using hfits.1) ?_
  intro d hd
  rcases List.mem_map.1 hd with ⟨a, ha, rfl⟩
  exact h a (hfits.2 a ha)

theorem writable_strings {items : List String} (h : FitsList FitsText items) (depth : Nat) :
    Writable (depth + 1) ((Json.strings items).toDatum .unsigned) :=
  writable_ofList h fun _ hs => writable_string hs depth

/-- A record is one container around its fields. -/
theorem writable_record (names : List String) {members : List (String × Json)} {depth : Nat}
    (hfields : members.map Prod.fst = names) (hnames : FitsList FitsText names)
    (h : ∀ m ∈ members, Writable depth (m.2.toDatum .unsigned)) :
    Writable (depth + 1) ((Json.object members).toDatum .unsigned) := by
  subst hfields
  rw [Json.toDatum, Json.toEntries_eq_map]
  refine .map (by simpa using hnames.1) ?_ ?_
  · intro entry hentry
    rcases List.mem_map.1 hentry with ⟨m, hm, rfl⟩
    exact .text (hnames.2 m.1 (List.mem_map.2 ⟨m, hm, rfl⟩))
  · intro entry hentry
    rcases List.mem_map.1 hentry with ⟨m, hm, rfl⟩
    exact h m hm

end MessagePack

open MessagePack

/-! ## Locations and references -/

def Location.Fits (l : Location) : Prop :=
  FitsText l.uri

instance (l : Location) : Decidable l.Fits :=
  inferInstanceAs (Decidable (FitsText _))

def Reference.Fits (r : Reference) : Prop :=
  FitsText r.path ∧ FitsList FitsText r.nesting

instance : DecidablePred Reference.Fits := fun _ =>
  inferInstanceAs (Decidable (_ ∧ _))

/-- A word of four bytes is less than one of eight. -/
theorem toNat_lt_size64 (n : UInt32) : n.toNat < UInt64.size :=
  Nat.lt_trans n.toNat_lt (by decide)

theorem Position.writable (p : Position) (depth : Nat) :
    Writable (depth + 1) (p.toJson.toDatum .unsigned) := by
  refine writable_record ["line", "column"] rfl (by decide) ?_
  simp only [List.forall_mem_cons]
  exact ⟨writable_natural (toNat_lt_size64 _) _, writable_natural (toNat_lt_size64 _) _, by simp⟩

theorem Range.writable (r : Range) (depth : Nat) :
    Writable (depth + 2) (r.toJson.toDatum .unsigned) := by
  refine writable_record ["begin", "end"] rfl (by decide) ?_
  simp only [List.forall_mem_cons]
  exact ⟨r.start.writable depth, r.stop.writable depth, by simp⟩

theorem Location.writable {l : Location} (h : l.Fits) (depth : Nat) :
    Writable (depth + 3) (l.toJson.toDatum .unsigned) := by
  refine writable_record ["range", "uri"] rfl (by decide) ?_
  simp only [List.forall_mem_cons]
  exact ⟨l.range.writable depth, writable_string h _, by simp⟩

theorem Reference.writable {r : Reference} (h : r.Fits) (depth : Nat) :
    Writable (depth + 2) (r.toJson.toDatum .unsigned) := by
  refine writable_record ["chained_name", "module_nesting"] rfl (by decide) ?_
  simp only [List.forall_mem_cons]
  exact ⟨writable_string h.1 _, writable_strings h.2 depth, by simp⟩

/-! ## Constants, modules and classes -/

def Constant.Fits (c : Constant) : Prop :=
  FitsText c.qualifiedName ∧ (∀ s ∈ c.description, FitsText s) ∧ ∀ l ∈ c.location, l.Fits

instance (c : Constant) : Decidable c.Fits :=
  inferInstanceAs (Decidable (_ ∧ _ ∧ _))

def Module.Fits (m : Module) : Prop :=
  m.constant.Fits ∧
    FitsList FitsText m.includes ∧ FitsList Reference.Fits m.writtenIncludes ∧
    FitsList FitsText m.prepends ∧ FitsList Reference.Fits m.writtenPrepends

instance (m : Module) : Decidable m.Fits :=
  inferInstanceAs (Decidable (_ ∧ _ ∧ _ ∧ _ ∧ _))

def Class.Fits (c : Class) : Prop :=
  c.base.Fits ∧ (∀ s ∈ c.superclass, FitsText s) ∧ ∀ r ∈ c.writtenSuperclass, r.Fits

instance (c : Class) : Decidable c.Fits :=
  inferInstanceAs (Decidable (_ ∧ _ ∧ _))

theorem Constant.writable {c : Constant} (h : c.Fits) (depth : Nat) :
    Writable (depth + 4) (c.toJson.toDatum .unsigned) := by
  rcases h with ⟨hname, hdescription, hlocation⟩
  refine writable_record ["qualified_name", "description", "location"] rfl (by decide) ?_
  simp only [List.forall_mem_cons]
  exact ⟨writable_string hname _, writable_optionalText hdescription _,
    writable_ofOption fun l hl => Location.writable (hlocation l hl) depth, by simp⟩

theorem Module.writable {m : Module} (h : m.Fits) (depth : Nat) :
    Writable (depth + 5) (m.toJson.toDatum .unsigned) := by
  rcases h with ⟨hconstant, hincludes, hwrittenIncludes, hprepends, hwrittenPrepends⟩
  refine writable_record
    ["constant",
      "included_module_qualified_names", "included_module_unqualified_names",
      "prepended_module_qualified_names", "prepended_module_unqualified_names"] rfl (by decide) ?_
  simp only [List.forall_mem_cons]
  exact ⟨Constant.writable hconstant depth,
    writable_strings hincludes _,
    writable_ofList hwrittenIncludes fun _ hr => Reference.writable hr (depth + 1),
    writable_strings hprepends _,
    writable_ofList hwrittenPrepends fun _ hr => Reference.writable hr (depth + 1), by simp⟩

theorem Class.writable {c : Class} (h : c.Fits) (depth : Nat) :
    Writable (depth + 6) (c.toJson.toDatum .unsigned) := by
  rcases h with ⟨hbase, hsuperclass, hwritten⟩
  refine writable_record
    ["module", "super_class_qualified_name", "super_class_unqualified_name"] rfl (by decide) ?_
  simp only [List.forall_mem_cons]
  exact ⟨Module.writable hbase depth, writable_optionalText hsuperclass _,
    writable_ofOption fun r hr => Reference.writable (hwritten r hr) (depth + 3), by simp⟩

/-! ## Methods -/

def Signature.Fits (s : Signature) : Prop :=
  FitsText s.parameters ∧ FitsText s.returns

instance : DecidablePred Signature.Fits := fun _ =>
  inferInstanceAs (Decidable (_ ∧ _))

def Parameter.Fits (p : Parameter) : Prop :=
  FitsText p.name ∧ FitsList FitsText p.types

instance : DecidablePred Parameter.Fits := fun _ =>
  inferInstanceAs (Decidable (_ ∧ _))

def Method.Fits (m : Method) : Prop :=
  FitsText m.name ∧ FitsText m.owner ∧
    FitsList Signature.Fits m.signatures ∧ FitsList Parameter.Fits m.parameters ∧
    (∀ s ∈ m.description, FitsText s) ∧ ∀ l ∈ m.location, l.Fits

instance (m : Method) : Decidable m.Fits :=
  inferInstanceAs (Decidable (_ ∧ _ ∧ _ ∧ _ ∧ _ ∧ _))

theorem MethodKind.writable (k : MethodKind) (depth : Nat) :
    Writable depth (k.toJson.toDatum .unsigned) := by
  cases k <;> exact writable_string (by decide) depth

theorem Signature.writable {s : Signature} (h : s.Fits) (depth : Nat) :
    Writable (depth + 1) (s.toJson.toDatum .unsigned) := by
  refine writable_record ["parameters_string", "return_type"] rfl (by decide) ?_
  simp only [List.forall_mem_cons]
  exact ⟨writable_string h.1 _, writable_string h.2 _, by simp⟩

theorem Parameter.writable {p : Parameter} (h : p.Fits) (depth : Nat) :
    Writable (depth + 2) (p.toJson.toDatum .unsigned) := by
  refine writable_record ["name", "types"] rfl (by decide) ?_
  simp only [List.forall_mem_cons]
  exact ⟨writable_string h.1 _, writable_strings h.2 depth, by simp⟩

theorem Method.writable {m : Method} (h : m.Fits) (depth : Nat) :
    Writable (depth + 4) (m.toJson.toDatum .unsigned) := by
  rcases h with ⟨hname, howner, hsignatures, hparameters, hdescription, hlocation⟩
  refine writable_record
    ["kind", "method_name", "namespace", "types", "parameters", "description", "location"]
    rfl (by decide) ?_
  simp only [List.forall_mem_cons]
  exact ⟨m.kind.writable _, writable_string hname _, writable_string howner _,
    writable_ofList hsignatures fun _ hs => Signature.writable hs (depth + 1),
    writable_ofList hparameters fun _ hp => Parameter.writable hp depth,
    writable_optionalText hdescription _,
    writable_ofOption fun l hl => Location.writable (hlocation l hl) depth, by simp⟩

/-! ## Definitions -/

namespace Definition

/-- All texts and lists of a definition are short enough. -/
def Fits : Definition → Prop
  | ofConstant c => c.Fits
  | ofModule m => m.Fits
  | ofClass c => c.Fits
  | ofMethod m => m.Fits

instance : DecidablePred Fits
  | ofConstant c => inferInstanceAs (Decidable c.Fits)
  | ofModule m => inferInstanceAs (Decidable m.Fits)
  | ofClass c => inferInstanceAs (Decidable c.Fits)
  | ofMethod m => inferInstanceAs (Decidable m.Fits)

/-- A definition is a map around its body, which is a class at most. -/
theorem writable {d : Definition} (h : d.Fits) (depth : Nat) :
    Writable (depth + 7) (d.toJson.toDatum .unsigned) := by
  cases d with
  | ofConstant c =>
      refine writable_record ["constant"] rfl (by decide) ?_
      simpa using Constant.writable h (depth + 2)
  | ofModule m =>
      refine writable_record ["module"] rfl (by decide) ?_
      simpa using Module.writable h (depth + 1)
  | ofClass c =>
      refine writable_record ["class"] rfl (by decide) ?_
      simpa using Class.writable h depth
  | ofMethod m =>
      refine writable_record ["method"] rfl (by decide) ?_
      simpa using Method.writable h (depth + 2)

end Definition
end RubyIndex
