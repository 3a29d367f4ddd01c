import RubyIndex.Definition.Basic
import RubyIndex.Json.Basic

/-!
# The data form of definitions

A definition is a map with one entry, whose key names its sort.  Writing gives every field; reading
skips unknown fields, takes a missing or nil optional field for absent and a missing mixin or
parameter list for empty, and refuses anything else that is missing or of another type.

* `Definition.toJson` writes;
* `Definition.ofDatum?` reads, from JSON by way of `Definition.ofJson?`.
-/

namespace RubyIndex

/-! ## Positions -/

def Position.toJson (p : Position) : Json :=
  .object [("line", .natural p.line.toNat), ("column", .natural p.column.toNat)]

def Position.ofDatum? (d : Datum) : Option Position := do
  let s ← d.slots? ["line", "column"]
  let line ← s.required? 0 (Datum.naturalBelow? UInt32.size)
  let column ← s.required? 1 (Datum.naturalBelow? UInt32.size)
  some ⟨UInt32.ofNat line, UInt32.ofNat column⟩

def Range.toJson (r : Range) : Json :=
  .object [("begin", r.start.toJson), ("end", r.stop.toJson)]

def Range.ofDatum? (d : Datum) : Option Range := do
  let s ← d.slots? ["begin", "end"]
  let start ← s.required? 0 Position.ofDatum?
  let stop ← s.required? 1 Position.ofDatum?
  some ⟨start, stop⟩

def Location.toJson (l : Location) : Json :=
  .object [("range", l.range.toJson), ("uri", .string l.uri)]

def Location.ofDatum? (d : Datum) : Option Location := do
  let s ← d.slots? ["range", "uri"]
  let range ← s.required? 0 Range.ofDatum?
  let uri ← s.required? 1 Datum.text?
  some ⟨range, uri⟩

/-! ## Constants, modules and classes -/

def Reference.toJson (r : Reference) : Json :=
  .object [("chained_name", .string r.path), ("module_nesting", .strings r.nesting)]

def Reference.ofDatum? (d : Datum) : Option Reference := do
  let s ← d.slots? ["chained_name", "module_nesting"]
  let path ← s.required? 0 Datum.text?
  let nesting ← s.required? 1 (Datum.listOf? Datum.text?)
  some ⟨path, nesting⟩

def Constant.toJson (c : Constant) : Json :=
  .object [
    ("qualified_name", .string c.qualifiedName),
    ("description", .ofOption .string c.description),
    ("location", .ofOption Location.toJson c.location)]

def Constant.ofDatum? (d : Datum) : Option Constant := do
  let s ← d.slots? ["qualified_name", "description", "location"]
  let qualifiedName ← s.required? 0 Datum.text?
  let description ← s.optional? 1 Datum.text?
  let location ← s.optional? 2 Location.ofDatum?
  some ⟨qualifiedName, description, location⟩

def Module.toJson (m : Module) : Json :=
  .object [
    ("constant", m.constant.toJson),
    ("included_module_qualified_names", .strings m.includes),
    ("included_module_unqualified_names", .ofList Reference.toJson m.writtenIncludes),
    ("prepended_module_qualified_names", .strings m.prepends),
    ("prepended_module_unqualified_names", .ofList Reference.toJson m.writtenPrepends)]

def Module.ofDatum? (d : Datum) : Option Module := do
  let s ← d.slots? [
    "constant",
    "included_module_qualified_names", "included_module_unqualified_names",
    "prepended_module_qualified_names", "prepended_module_unqualified_names"]
  let constant ← s.required? 0 Constant.ofDatum?
  let includes ← s.defaulted? 1 (Datum.listOf? Datum.text?)
  let writtenIncludes ← s.defaulted? 2 (Datum.listOf? Reference.ofDatum?)
  let prepends ← s.defaulted? 3 (Datum.listOf? Datum.text?)
  let writtenPrepends ← s.defaulted? 4 (Datum.listOf? Reference.ofDatum?)
  some ⟨constant, includes, writtenIncludes, prepends, writtenPrepends⟩

def Class.toJson (c : Class) : Json :=
  .object [
    ("module", c.base.toJson),
    ("super_class_qualified_name", .ofOption .string c.superclass),
    ("super_class_unqualified_name", .ofOption Reference.toJson c.writtenSuperclass)]

def Class.ofDatum? (d : Datum) : Option Class := do
  let s ← d.slots? ["module", "super_class_qualified_name", "super_class_unqualified_name"]
  let base ← s.required? 0 Module.ofDatum?
  let superclass ← s.optional? 1 Datum.text?
  let writtenSuperclass ← s.optional? 2 Reference.ofDatum?
  some ⟨base, superclass, writtenSuperclass⟩

/-! ## Methods -/

def MethodKind.toJson : MethodKind → Json
  | .instanceMethod => .string "instance"
  | .singletonMethod => .string "singleton"

/-- The kind at a position of the list of kinds. -/
def MethodKind.ofIndex? : Nat → Option MethodKind
  | 0 => some .instanceMethod
  | 1 => some .singletonMethod
  | _ => none

/-- A kind goes by its name, or by a map with its name and nil. -/
def MethodKind.ofDatum? : Datum → Option MethodKind
  | .map [(key, .nil)] => (Datum.variant? ["instance", "singleton"] key).bind ofIndex?
  | d => (Datum.variant? ["instance", "singleton"] d).bind ofIndex?

def Signature.toJson (s : Signature) : Json :=
  .object [("parameters_string", .string s.parameters), ("return_type", .string s.returns)]

def Signature.ofDatum? (d : Datum) : Option Signature := do
  let s ← d.slots? ["parameters_string", "return_type"]
  let parameters ← s.required? 0 Datum.text?
  let returns ← s.required? 1 Datum.text?
  some ⟨parameters, returns⟩

def Parameter.toJson (p : Parameter) : Json :=
  .object [("name", .string p.name), ("types", .strings p.types)]

def Parameter.ofDatum? (d : Datum) : Option Parameter := do
  let s ← d.slots? ["name", "types"]
  let name ← s.required? 0 Datum.text?
  let types ← s.required? 1 (Datum.listOf? Datum.text?)
  some ⟨name, types⟩

def Method.toJson (m : Method) : Json :=
  .object [
    ("kind", m.kind.toJson),
    ("method_name", .string m.name),
    ("namespace", .string m.owner),
    ("types", .ofList Signature.toJson m.signatures),
    ("parameters", .ofList Parameter.toJson m.parameters),
    ("description", .ofOption .string m.description),
    ("location", .ofOption Location.toJson m.location)]

def Method.ofDatum? (d : Datum) : Option Method := do
  let s ← d.slots? [
    "kind", "method_name", "namespace", "types", "parameters", "description", "location"]
  let kind ← s.required? 0 MethodKind.ofDatum?
  let name ← s.required? 1 Datum.text?
  let owner ← s.required? 2 Datum.text?
  let signatures ← s.required? 3 (Datum.listOf? Signature.ofDatum?)
  let parameters ← s.defaulted? 4 (Datum.listOf? Parameter.ofDatum?)
  let description ← s.optional? 5 Datum.text?
  let location ← s.optional? 6 Location.ofDatum?
  some ⟨kind, name, owner, signatures, parameters, description, location⟩

/-! ## Definitions -/

namespace Definition

def toJson : Definition → Json
  | ofConstant c => .object [("constant", c.toJson)]
  | ofModule m => .object [("module", m.toJson)]
  | ofClass c => .object [("class", c.toJson)]
  | ofMethod m => .object [("method", m.toJson)]

/-- The body of a definition, by the position of its sort. -/
def ofBody? : Nat → Datum → Option Definition
  | 0, d => (Constant.ofDatum? d).map ofConstant
  | 1, d => (Module.ofDatum? d).map ofModule
  | 2, d => (Class.ofDatum? d).map ofClass
  | 3, d => (Method.ofDatum? d).map ofMethod
  | _, _ => none

/-- Reads a map with exactly one entry, which names the sort. -/
def ofDatum? : Datum → Option Definition
  | .map [(key, body)] =>
      (Datum.variant? ["constant", "module", "class", "method"] key).bind fun sort =>
        ofBody? sort body
  | _ => none

/-- Numbers of a JSON text name no variant, so they are read as signed. -/
def ofJson? (j : Json) : Option Definition :=
  ofDatum? (j.toDatum fun n => .signed (Int.ofNat n))

/-- Reads an array of definitions. -/
def listOfJson? (j : Json) : Option (List Definition) :=
  Datum.listOf? ofDatum? (j.toDatum fun n => .signed (Int.ofNat n))

end Definition
end RubyIndex
