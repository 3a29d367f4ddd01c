import RubyIndex.Definition.Basic
import RubyIndex.Store.Assoc

/-!
# The store of definitions

Every definition stands under its qualified name; a later definition of that name takes its place.
For each document the store also lists the names that it declared, so that they can be dropped when
the document changes.  Definitions of the built-in library are on no list.

* `Store`, with `find?`, `definitions`, `uris`, `listing`;
* `Store.addAll` adds built-in definitions;
* `Store.removeUri` drops what a document declared;
* `Store.resolve` gives the name a reference stands for, and `Store.resolveNamespaces` fills in the
  resolved mixins and superclasses;
* `Store.update` replaces what a document declared.
-/

namespace RubyIndex

structure Store where
  entries : Assoc String Definition := []
  /-- The names each document declared, in order and with repetitions. -/
  listings : Assoc String (List String) := []
  deriving DecidableEq, Inhabited

namespace Store

/-! ## Reading -/

def find? (s : Store) (name : String) : Option Definition :=
  s.entries.find? name

/-- All definitions in the order their names were first added. -/
def definitions (s : Store) : List Definition :=
  s.entries.values

/-- The number of definitions. -/
def size (s : Store) : Nat :=
  s.entries.length

/-- The documents that have a list of names. -/
def uris (s : Store) : List String :=
  s.listings.keys

/-- The names listed for a document. -/
def listing (s : Store) (uri : String) : List String :=
  (s.listings.find? uri).getD []

/-! ## Adding and removing -/

def insert (s : Store) (d : Definition) : Store :=
  { s with entries := s.entries.set d.qualifiedName d }

/-- Adds definitions that belong to no document. -/
def addAll (s : Store) (definitions : List Definition) : Store :=
  definitions.foldl insert s

/-- Notes that a document declared a name. -/
def list (s : Store) (uri name : String) : Store :=
  { s with listings := s.listings.set uri (s.listing uri ++ [name]) }

/-- Whether what stands under a name goes when the document goes: it must not have been declared by
another document since. -/
def owns (s : Store) (uri name : String) : Bool :=
  (s.find? name).elim false fun d => d.uri.elim true fun owner => owner == uri

/-- Drops a name if the document owns it, and counts. -/
def dropName (uri : String) (state : Store × Nat) (name : String) : Store × Nat :=
  if state.1.owns uri name then
    ({ state.1 with entries := state.1.entries.erase name }, state.2 + 1)
  else state

/-- Drops the definitions of a document with its list, and says how many there were. -/
def removeUri (s : Store) (uri : String) : Store × Nat :=
  (s.listing uri).foldl (dropName uri) ({ s with listings := s.listings.erase uri }, 0)

/-! ## Resolution -/

/-- The first candidate of a reference that is defined, else the path as written. -/
def resolve (s : Store) (r : Reference) : String :=
  (r.candidates.find? fun name => (s.find? name).isSome).getD r.path

/-- The superclass of a class that is written without one. -/
def implicitSuperclass (name : String) : Option String :=
  if name = "BasicObject" then none
  else if name = "Object" then some "BasicObject"
  else some "Object"

/-- The resolved names of written references; without any, the names already there. -/
def resolveList (s : Store) (written : List Reference) (resolved : List String) : List String :=
  if written.isEmpty then resolved else written.map s.resolve

/-- A module with its mixins resolved. -/
def resolveModule (s : Store) (m : Module) : Module :=
  { m with
    includes := s.resolveList m.writtenIncludes m.includes
    prepends := s.resolveList m.writtenPrepends m.prepends }

/-- The superclass of a class: the written one resolved, else the one it has, else the implicit
one. -/
def resolveSuperclass (s : Store) (name : String) (c : Class) : Option String :=
  match c.writtenSuperclass, c.superclass with
  | some r, _ => some (s.resolve r)
  | none, some superclass => some superclass
  | none, none => implicitSuperclass name

/-- A definition with its references resolved. -/
def resolveDefinition (s : Store) (name : String) : Definition → Definition
  | .ofModule m => .ofModule (s.resolveModule m)
  | .ofClass c =>
      .ofClass
        { c with
          base := s.resolveModule c.base
          superclass := s.resolveSuperclass name c }
  | d => d

/-- Resolves the references of what stands under a name. -/
def resolveName (s : Store) (name : String) : Store :=
  match s.find? name with
  | some d => { s with entries := s.entries.set name (s.resolveDefinition name d) }
  | none => s

def resolveNamespaces (s : Store) (names : List String) : Store :=
  names.foldl resolveName s

/-! ## Documents -/

/-- Adds a definition of a document, listed under the document that it declares for itself. -/
def declare (uri : String) (s : Store) (d : Definition) : Store :=
  (s.insert d).list (d.uri.getD uri) d.qualifiedName

/-- Replaces what a document declared: drops the old definitions, adds the new ones, and resolves
the modules and classes among them. -/
def update (s : Store) (uri : String) (definitions : List Definition) : Store :=
  let added := definitions.foldl (declare uri) (s.removeUri uri).1
  added.resolveNamespaces
    ((definitions.filter fun d => d.module?.isSome).map Definition.qualifiedName)

end Store
end RubyIndex
