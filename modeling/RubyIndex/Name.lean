import RubyIndex.Text.Split

/-!
# Qualified names

Constants are named by their path, `A::B`; an instance method adds `#` and its name to the path of
its owner, a singleton method `.` and its name.  The metaclass of `X` is the type `singleton<X>`.

* `join`, `namespaceOf`, `leafOf`, `segments` work on constant paths;
* `MethodKind.qualify` names a method;
* `metaclass`, `metaclassTarget?` write and read metaclass types.
-/

namespace RubyIndex

/-- Who a method is called on: the instances of its owner, or the owner itself. -/
inductive MethodKind
  | instanceMethod
  | singletonMethod
  deriving DecidableEq, Repr, Inhabited

namespace Name

/-! ## Constant paths -/

/-- The namespace of what is declared at the top level. -/
def topLevel : String := "Object"

/-- A constant below a namespace; the empty namespace adds nothing. -/
def join (scope name : String) : String :=
  if scope = "" then name else scope ++ "::" ++ name

/-- The path without its last segment; a top-level constant lives in `Object`. -/
def namespaceOf (name : String) : String :=
  match Text.splitLastScope name.toList with
  | some (before, _) => String.ofList before
  | none => topLevel

/-- The last segment of a path. -/
def leafOf (name : String) : String :=
  match Text.splitLastScope name.toList with
  | some (_, after) => String.ofList after
  | none => name

/-- The segments of a path, empty ones left out. -/
def segments (name : String) : List String :=
  ((Text.splitScopes name.toList).filter fun segment => !segment.isEmpty).map String.ofList

/-! ## Metaclasses -/

/-- The type of the class object `name` itself. -/
def metaclass (name : String) : String :=
  "singleton<" ++ name ++ ">"

/-- The `X` of a type `singleton<X>`. -/
def metaclassTarget? (type : String) : Option String :=
  ("singleton<".toList.isPrefixOf? type.toList).bind fun rest =>
    (List.isSuffixOf? [ '>' ] rest).map String.ofList

end Name

/-! ## Methods -/

namespace MethodKind

def ofSingleton (singleton : Bool) : MethodKind :=
  if singleton then .singletonMethod else .instanceMethod

def isSingleton : MethodKind → Bool
  | .singletonMethod => true
  | .instanceMethod => false

/-- The character between the owner and the name of a method. -/
def marker : MethodKind → Char
  | .instanceMethod => '#'
  | .singletonMethod => '.'

/-- The qualified name of a method. -/
def qualify (kind : MethodKind) (owner name : String) : String :=
  owner ++ String.singleton kind.marker ++ name

end MethodKind

end RubyIndex
