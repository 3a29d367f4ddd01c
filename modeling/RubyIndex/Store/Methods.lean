import RubyIndex.Store.Ancestors

/-!
# Methods of a type

* `Store.findMethod?` finds the method a call is dispatched to;
* `Store.instanceMethods`, `Store.singletonMethods` list all methods of a type;
* `Store.constantsUnder` lists the constants of a namespace.
-/

namespace RubyIndex
namespace Store

/-- The names that are searched for the methods of a type.  A type without a definition is searched
by itself. -/
def chainNames (s : Store) (type : String) : List String :=
  match s.find? type with
  | some d => (s.chain d).map Definition.qualifiedName
  | none => [type]

/-- The first method of that name and kind along the chain of a type. -/
def findAlong? (s : Store) (method type : String) (kind : MethodKind) : Option Definition :=
  (s.chainNames type).findSome? fun owner => s.find? (kind.qualify owner method)

/-- The method a call is dispatched to.  A class object also responds to the instance methods of
`Class` and `Module`. -/
def findMethod? (s : Store) (method type : String) (kind : MethodKind) : Option Definition :=
  match s.findAlong? method type kind, kind with
  | some d, _ => some d
  | none, .instanceMethod => none
  | none, .singletonMethod =>
      ["Class", "Module"].findSome? fun metaclass => s.findAlong? method metaclass .instanceMethod

/-- The rank of each name of a chain, that of its first occurrence. -/
def ranks (chain : List String) : Assoc String Nat :=
  chain.zipIdx.foldl (fun ranks (name, index) => ranks.setNew name index) []

/-- The rank of a definition that is a method of a kind, if its owner has one. -/
def rank? (ranks : Assoc String Nat) (kind : MethodKind) (d : Definition) : Option Nat :=
  d.method?.bind fun m => if m.kind = kind then ranks.find? m.owner else none

/-- The definitions that have a rank, with their ranks. -/
def ranked (s : Store) (ranks : Assoc String Nat) (kind : MethodKind) :
    List (Nat × Definition) :=
  s.definitions.filterMap fun d => (rank? ranks kind d).map fun rank => (rank, d)

/-- The methods of a kind along the chain of a type, nearest owner first. -/
def methodsAlong (s : Store) (type : String) (kind : MethodKind) : List Definition :=
  let methods := s.ranked (ranks (s.chainNames type)) kind
  (methods.mergeSort fun a b => a.1 ≤ b.1).map (·.2)

/-- The methods that can be called on a class object. -/
def singletonMethods (s : Store) (type : String) : List Definition :=
  s.methodsAlong type .singletonMethod ++ s.methodsAlong "Class" .instanceMethod

/-- The methods that can be called on a value of a type. -/
def instanceMethods (s : Store) (type : String) : List Definition :=
  match Name.metaclassTarget? type with
  | some target => s.singletonMethods target
  | none => s.methodsAlong type .instanceMethod

/-- The constants that are declared directly in a namespace. -/
def constantsUnder (s : Store) (scope : String) : List Definition :=
  s.definitions.filter fun d => d.isConstant && d.namespaceName == scope

end Store
end RubyIndex
