import RubyIndex.Definition.Codec
import RubyIndex.Proofs.Datum.Shape

/-!
# The shape of definitions

For each record of a definition, its fields and whether they may be left out; and that reading it
does not tell data apart that say the same, in whichever manner.

* `Definition.shape`, put together from one list of fields for each record;
* `Definition.respects_shape`, from one lemma for each record.
-/

namespace RubyIndex

open Datum (Shape Idiom Respects)

variable (I : Idiom)

/-! ## Positions -/

def Position.shape : Shape :=
  .record [("line", .required, .natural), ("column", .required, .natural)]

def Range.shape : Shape :=
  .record [("begin", .required, Position.shape), ("end", .required, Position.shape)]

def Location.shape : Shape :=
  .record [("range", .required, Range.shape), ("uri", .required, .scalar)]

theorem Position.respects_shape : Respects (I.restating shape) ofDatum? := by
  refine I.respects_record rfl (by decide) ?_
  intro s s' h
  rw [h.required?_eq 0 rfl (I.respects_naturalBelow? _),
    h.required?_eq 1 rfl (I.respects_naturalBelow? _)]

theorem Range.respects_shape : Respects (I.restating shape) ofDatum? := by
  refine I.respects_record rfl (by decide) ?_
  intro s s' h
  rw [h.required?_eq 0 rfl (Position.respects_shape I),
    h.required?_eq 1 rfl (Position.respects_shape I)]

theorem Location.respects_shape : Respects (I.restating shape) ofDatum? := by
  refine I.respects_record rfl (by decide) ?_
  intro s s' h
  rw [h.required?_eq 0 rfl (Range.respects_shape I), h.required?_eq 1 rfl (I.respects_scalar _)]

/-! ## Constants, modules and classes -/

def Reference.shape : Shape :=
  .record [
    ("chained_name", .required, .scalar),
    ("module_nesting", .required, .listOf .scalar)]

def Constant.shape : Shape :=
  .record [
    ("qualified_name", .required, .scalar),
    ("description", .optional, .scalar),
    ("location", .optional, Location.shape)]

def Module.shape : Shape :=
  .record [
    ("constant", .required, Constant.shape),
    ("included_module_qualified_names", .defaulted, .listOf .scalar),
    ("included_module_unqualified_names", .defaulted, .listOf Reference.shape),
    ("prepended_module_qualified_names", .defaulted, .listOf .scalar),
    ("prepended_module_unqualified_names", .defaulted, .listOf Reference.shape)]

def Class.shape : Shape :=
  .record [
    ("module", .required, Module.shape),
    ("super_class_qualified_name", .optional, .scalar),
    ("super_class_unqualified_name", .optional, Reference.shape)]

theorem Reference.respects_shape : Respects (I.restating shape) ofDatum? := by
  refine I.respects_record rfl (by decide) ?_
  intro s s' h
  rw [h.required?_eq 0 rfl (I.respects_scalar _),
    h.required?_eq 1 rfl (I.respects_listOf? (I.respects_scalar _))]

theorem Constant.respects_shape : Respects (I.restating shape) ofDatum? := by
  refine I.respects_record rfl (by decide) ?_
  intro s s' h
  rw [h.required?_eq 0 rfl (I.respects_scalar _), h.optional?_eq 1 rfl (I.respects_scalar _),
    h.optional?_eq 2 rfl (Location.respects_shape I)]

theorem Module.respects_shape : Respects (I.restating shape) ofDatum? := by
  refine I.respects_record rfl (by decide) ?_
  intro s s' h
  rw [h.required?_eq 0 rfl (Constant.respects_shape I),
    h.defaulted?_eq 1 rfl (I.respects_listOf? (I.respects_scalar _)) rfl,
    h.defaulted?_eq 2 rfl (I.respects_listOf? (Reference.respects_shape I)) rfl,
    h.defaulted?_eq 3 rfl (I.respects_listOf? (I.respects_scalar _)) rfl,
    h.defaulted?_eq 4 rfl (I.respects_listOf? (Reference.respects_shape I)) rfl]

theorem Class.respects_shape : Respects (I.restating shape) ofDatum? := by
  refine I.respects_record rfl (by decide) ?_
  intro s s' h
  rw [h.required?_eq 0 rfl (Module.respects_shape I), h.optional?_eq 1 rfl (I.respects_scalar _),
    h.optional?_eq 2 rfl (Reference.respects_shape I)]

/-! ## Methods -/

def Signature.shape : Shape :=
  .record [("parameters_string", .required, .scalar), ("return_type", .required, .scalar)]

def Parameter.shape : Shape :=
  .record [("name", .required, .scalar), ("types", .required, .listOf .scalar)]

def Method.shape : Shape :=
  .record [
    ("kind", .required, .scalar),
    ("method_name", .required, .scalar),
    ("namespace", .required, .scalar),
    ("types", .required, .listOf Signature.shape),
    ("parameters", .defaulted, .listOf Parameter.shape),
    ("description", .optional, .scalar),
    ("location", .optional, Location.shape)]

theorem Signature.respects_shape : Respects (I.restating shape) ofDatum? := by
  refine I.respects_record rfl (by decide) ?_
  intro s s' h
  rw [h.required?_eq 0 rfl (I.respects_scalar _), h.required?_eq 1 rfl (I.respects_scalar _)]

theorem Parameter.respects_shape : Respects (I.restating shape) ofDatum? := by
  refine I.respects_record rfl (by decide) ?_
  intro s s' h
  rw [h.required?_eq 0 rfl (I.respects_scalar _),
    h.required?_eq 1 rfl (I.respects_listOf? (I.respects_scalar _))]

theorem Method.respects_shape : Respects (I.restating shape) ofDatum? := by
  refine I.respects_record rfl (by decide) ?_
  intro s s' h
  rw [h.required?_eq 0 rfl (I.respects_scalar _), h.required?_eq 1 rfl (I.respects_scalar _),
    h.required?_eq 2 rfl (I.respects_scalar _),
    h.required?_eq 3 rfl (I.respects_listOf? (Signature.respects_shape I)),
    h.defaulted?_eq 4 rfl (I.respects_listOf? (Parameter.respects_shape I)) rfl,
    h.optional?_eq 5 rfl (I.respects_scalar _),
    h.optional?_eq 6 rfl (Location.respects_shape I)]

/-! ## Definitions -/

namespace Definition

/-- A map of one entry, named for the sort. -/
def shape : Shape :=
  .variant [
    ("constant", Constant.shape),
    ("module", Module.shape),
    ("class", Class.shape),
    ("method", Method.shape)]

theorem respects_shape : Respects (I.restating shape) ofDatum? := by
  intro d d' h
  cases I.sameVariant h with
  | unchanged => rfl
  | @body name body d d' hsort hbody =>
      -- the entry of the map names one of the four sorts
      simp only [List.map_cons, List.map_nil, List.mem_cons, Prod.mk.injEq, List.not_mem_nil,
        or_false] at hsort
      rcases hsort with ⟨rfl, rfl⟩ | ⟨rfl, rfl⟩ | ⟨rfl, rfl⟩ | ⟨rfl, rfl⟩
      · exact congrArg (Option.map ofConstant) (Constant.respects_shape I hbody)
      · exact congrArg (Option.map ofModule) (Module.respects_shape I hbody)
      · exact congrArg (Option.map ofClass) (Class.respects_shape I hbody)
      · exact congrArg (Option.map ofMethod) (Method.respects_shape I hbody)

end Definition
end RubyIndex
