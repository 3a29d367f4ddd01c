import RubyIndex.Proofs.Definition.Shape

/-!
# Definitions that say the same

For each record of a definition, which data say the same; and that reading a definition does not
tell them apart.

* `Definition.restating`, put together from one list of fields for each record;
* `Definition.restating_eq`, that these are the fields of its shape, and from it
  `Definition.respects_ofDatum?`.
-/

namespace RubyIndex

open Datum (Restating Respects)

/-! ## Positions -/

def Position.restating : Restating :=
  .record [⟨"line", .required, .natural⟩, ⟨"column", .required, .natural⟩]

def Range.restating : Restating :=
  .record [⟨"begin", .required, Position.restating⟩, ⟨"end", .required, Position.restating⟩]

def Location.restating : Restating :=
  .record [⟨"range", .required, Range.restating⟩, ⟨"uri", .required, .same⟩]

/-! ## Constants, modules and classes -/

def Reference.restating : Restating :=
  .record [⟨"chained_name", .required, .same⟩, ⟨"module_nesting", .required, .listOf .same⟩]

def Constant.restating : Restating :=
  .record [
    ⟨"qualified_name", .required, .same⟩,
    ⟨"description", .optional, .same⟩,
    ⟨"location", .optional, Location.restating⟩]

def Module.restating : Restating :=
  .record [
    ⟨"constant", .required, Constant.restating⟩,
    ⟨"included_module_qualified_names", .defaulted, .listOf .same⟩,
    ⟨"included_module_unqualified_names", .defaulted, .listOf Reference.restating⟩,
    ⟨"prepended_module_qualified_names", .defaulted, .listOf .same⟩,
    ⟨"prepended_module_unqualified_names", .defaulted, .listOf Reference.restating⟩]

def Class.restating : Restating :=
  .record [
    ⟨"module", .required, Module.restating⟩,
    ⟨"super_class_qualified_name", .optional, .same⟩,
    ⟨"super_class_unqualified_name", .optional, Reference.restating⟩]

/-! ## Methods -/

def Signature.restating : Restating :=
  .record [⟨"parameters_string", .required, .same⟩, ⟨"return_type", .required, .same⟩]

def Parameter.restating : Restating :=
  .record [⟨"name", .required, .same⟩, ⟨"types", .required, .listOf .same⟩]

def Method.restating : Restating :=
  .record [
    ⟨"kind", .required, .same⟩,
    ⟨"method_name", .required, .same⟩,
    ⟨"namespace", .required, .same⟩,
    ⟨"types", .required, .listOf Signature.restating⟩,
    ⟨"parameters", .defaulted, .listOf Parameter.restating⟩,
    ⟨"description", .optional, .same⟩,
    ⟨"location", .optional, Location.restating⟩]

/-! ## Definitions -/

namespace Definition

/-- The entry of a definition stays alone, and only its body may be given in another way. -/
def restating : Restating :=
  .variant [
    ("constant", Constant.restating),
    ("module", Module.restating),
    ("class", Class.restating),
    ("method", Method.restating)]

theorem restating_eq : restating = shape.restating := rfl

theorem respects_ofDatum? : Respects restating ofDatum? :=
  restating_eq ▸ respects_shape .restated

end Definition
end RubyIndex
