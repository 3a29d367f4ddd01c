import RubyIndex.Name
import RubyIndex.Position

/-!
# Definitions

What the index holds: constants, modules, classes and methods, each under its qualified name.  A
module or class keeps the mixins and the superclass twice, as references written in a document and
as the qualified names they were resolved to.

* `Reference`, a written constant path with the nesting it stands in;
* `Constant`, `Module`, `Class`, `Method`, and `Definition`, one of the four.
-/

namespace RubyIndex

/-- A constant path as written, with the enclosing namespaces, innermost first. -/
structure Reference where
  path : String
  nesting : List String
  deriving DecidableEq, Repr, Inhabited

/-- The names a reference may stand for: below each enclosing namespace, then the path alone. -/
def Reference.candidates (r : Reference) : List String :=
  r.nesting.map (fun scope => Name.join scope r.path) ++ [r.path]

structure Constant where
  qualifiedName : String
  description : Option String
  location : Option Location
  deriving DecidableEq, Repr, Inhabited

structure Module where
  constant : Constant
  includes : List String := []
  writtenIncludes : List Reference := []
  prepends : List String := []
  writtenPrepends : List Reference := []
  deriving DecidableEq, Repr, Inhabited

structure Class where
  base : Module
  superclass : Option String := none
  writtenSuperclass : Option Reference := none
  deriving DecidableEq, Repr, Inhabited

/-- One way to call a method: its parameter list as text and what it returns. -/
structure Signature where
  parameters : String
  returns : String
  deriving DecidableEq, Repr, Inhabited

/-- A parameter with its declared types. -/
structure Parameter where
  name : String
  types : List String
  deriving DecidableEq, Repr, Inhabited

structure Method where
  kind : MethodKind
  name : String
  owner : String
  signatures : List Signature
  parameters : List Parameter := []
  description : Option String := none
  location : Option Location := none
  deriving DecidableEq, Repr, Inhabited

inductive Definition
  | ofConstant (constant : Constant)
  | ofModule (body : Module)
  | ofClass (body : Class)
  | ofMethod (method : Method)
  deriving DecidableEq, Repr, Inhabited

/-! ## Methods -/

namespace Method

def qualifiedName (m : Method) : String :=
  m.kind.qualify m.owner m.name

def returnTypes (m : Method) : List String :=
  m.signatures.map Signature.returns

/-- The first declared parameter of that name. -/
def parameter? (m : Method) (name : String) : Option Parameter :=
  m.parameters.find? fun p => p.name == name

/-- Each signature behind the qualified name. -/
def displayedSignatures (m : Method) : List String :=
  m.signatures.map fun s => m.qualifiedName ++ s.parameters ++ " -> " ++ s.returns

end Method

/-! ## Definitions of any sort -/

namespace Definition

/-- The constant that a definition other than a method declares. -/
def constant? : Definition → Option Constant
  | ofConstant c => some c
  | ofModule m => some m.constant
  | ofClass c => some c.base.constant
  | ofMethod _ => none

/-- The key of a definition in the index. -/
def qualifiedName : Definition → String
  | ofConstant c => c.qualifiedName
  | ofModule m => m.constant.qualifiedName
  | ofClass c => c.base.constant.qualifiedName
  | ofMethod m => m.qualifiedName

def description : Definition → Option String
  | ofConstant c => c.description
  | ofModule m => m.constant.description
  | ofClass c => c.base.constant.description
  | ofMethod m => m.description

def location : Definition → Option Location
  | ofConstant c => c.location
  | ofModule m => m.constant.location
  | ofClass c => c.base.constant.location
  | ofMethod m => m.location

/-- The document that declared the definition. -/
def uri (d : Definition) : Option String :=
  d.location.map Location.uri

/-- The owner of a method, the enclosing namespace of a constant. -/
def namespaceName (d : Definition) : String :=
  match d with
  | ofMethod m => m.owner
  | _ => Name.namespaceOf d.qualifiedName

/-- The name of a method, the last segment of a constant. -/
def leafName (d : Definition) : String :=
  match d with
  | ofMethod m => m.name
  | _ => Name.leafOf d.qualifiedName

def kindName : Definition → String
  | ofConstant _ => "constant"
  | ofModule _ => "module"
  | ofClass _ => "class"
  | ofMethod m => if m.kind.isSingleton then "singleton method" else "instance method"

/-- Modules and classes are constants too. -/
def isConstant (d : Definition) : Bool :=
  d.constant?.isSome

/-- The module that a module or class definition declares. -/
def module? : Definition → Option Module
  | ofModule m => some m
  | ofClass c => some c.base
  | _ => none

def class? : Definition → Option Class
  | ofClass c => some c
  | _ => none

def method? : Definition → Option Method
  | ofMethod m => some m
  | _ => none

end Definition

end RubyIndex
