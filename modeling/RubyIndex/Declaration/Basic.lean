import RubyIndex.Declaration.DocComment
import RubyIndex.Declaration.Signature

/-!
# Declarations

The definitions that a syntax tree declares.  Each node is looked at by itself: references are kept
as written, with the namespaces around them, and are resolved by the store.

* `constantAt?`, `moduleAt?`, `classAt?`, `methodAt?`, what one node declares;
* `attributesAt`, the methods behind `attr_reader` and the like;
* `definitionsAt`, everything a node declares;
* `definitionsOf`, everything a tree declares.
-/

namespace RubyIndex
namespace Declaration

open Syntax (Kind Tree)

/-- Where a node was written in the document. -/
def locationAt? (t : Tree) (uri : String) (i : Nat) : Option Location :=
  (t.range? i).map fun range => ⟨range, uri⟩

/-! ## Constants, modules and classes -/

def constantAt? (t : Tree) (uri : String) (comment : Option String) (i : Nat) :
    Option Constant :=
  (t.qualifiedName? i).map fun name =>
    ⟨name, (DocComment.parse comment).description, locationAt? t uri i⟩

/-- The constants that statements without a receiver pass to a method. -/
def passedConstants (t : Tree) (method : String) (statements : List Nat) : List Reference :=
  (statements.filter fun s => t.methodName? s = some method && (t.receiver? s).isNone).flatMap
    fun s => (t.arguments s).filterMap t.reference?

def moduleAt? (t : Tree) (uri : String) (comment : Option String) (i : Nat) : Option Module :=
  (constantAt? t uri comment i).map fun constant =>
    { constant
      writtenIncludes := passedConstants t "include" (t.bodyStatements i)
      writtenPrepends := passedConstants t "prepend" (t.bodyStatements i) }

def classAt? (t : Tree) (uri : String) (comment : Option String) (i : Nat) : Option Class :=
  (moduleAt? t uri comment i).map fun base =>
    { base, writtenSuperclass := (t.superclass? i).bind t.reference? }

/-! ## Methods -/

def methodAt? (t : Tree) (uri : String) (comment : Option String) (i : Nat) : Option Method :=
  (t.methodName? i).map fun name =>
    let doc := DocComment.parse comment
    { kind := t.methodKind i
      name
      owner := t.methodOwner i
      signatures := signatures (renderParameters t doc.parameters (t.parameters i)) doc.returnTypes
      parameters := doc.parameters
      description := doc.description
      location := locationAt? t uri i }

/-- Which accessors a method generates for an attribute. -/
structure Accessors where
  reader : Bool
  writer : Bool
  deriving DecidableEq, Repr

def Accessors.ofMethod? (name : String) : Option Accessors :=
  match name with
  | "attr_reader" => some ⟨true, false⟩
  | "attr_writer" => some ⟨false, true⟩
  | "attr_accessor" => some ⟨true, true⟩
  | _ => none

/-- The kind of the methods that a call generates where it stands; only the body of a class or a
module, or of a singleton class, takes such calls. -/
def generatedKind? (t : Tree) (i : Nat) : Option MethodKind :=
  (t.nearest? (.block :: Tree.scopeKinds) i).bind fun scope =>
    match t.kind scope with
    | .classDecl | .moduleDecl => some .instanceMethod
    | .singletonClass => some .singletonMethod
    | _ => none

/-- The parameter list of the writer of an attribute. -/
def writerParameters (types : List String) : String :=
  if types.isEmpty then "(value)" else "(" ++ " | ".intercalate types ++ " value)"

/-- The accessors of one attribute. -/
def accessors (which : Accessors) (kind : MethodKind) (owner : String) (doc : DocComment)
    (location : Option Location) (name : String) : List Method :=
  let method (name parameters : String) : Method :=
    { kind, name, owner
      signatures := signatures parameters doc.returnTypes
      description := doc.description
      location }
  (if which.reader then [method name "()"] else []) ++
    (if which.writer then [method (name ++ "=") (writerParameters doc.returnTypes)] else [])

/-- The methods that a call generates for the attributes it names. -/
def attributesAt (t : Tree) (uri : String) (comment : Option String) (i : Nat) : List Method :=
  match (t.methodName? i).bind Accessors.ofMethod?, t.receiver? i, generatedKind? t i with
  | some which, none, some kind =>
      (t.arguments i).flatMap fun argument =>
        (t.stringValue? argument).elim [] fun name =>
          accessors which kind (t.namespaceAt i) (.parse comment) (locationAt? t uri argument) name
  | _, _, _ => []

/-! ## Trees -/

/-- What a node declares by itself. -/
def definitionsAt (t : Tree) (uri : String) (comment : Option String) (i : Nat) :
    List Definition :=
  match t.kind i with
  | .classDecl => ((classAt? t uri comment i).map .ofClass).toList
  | .moduleDecl => ((moduleAt? t uri comment i).map .ofModule).toList
  | .constAssign => ((constantAt? t uri comment i).map .ofConstant).toList
  | .method | .singletonMethod => ((methodAt? t uri comment i).map .ofMethod).toList
  | .send => (attributesAt t uri comment i).map .ofMethod
  | _ => []

/-- What the nodes of a tree declare, in pre-order. -/
def definitionsOf (t : Tree) (uri : String) (comment? : Nat → Option String) : List Definition :=
  (t.root :: t.descendants t.root).flatMap fun i => definitionsAt t uri (comment? i) i

end Declaration
end RubyIndex
