import RubyIndex.Lowering.Parameter

/-!
# Lowering of declarations

Classes, modules and methods open a frame that sees nothing of the outside; their names,
superclasses and objects still belong to the frame outside.
-/

namespace RubyIndex
namespace Lowering

open Concrete (Source)
open Syntax (Kind Child Leaf)

variable {m : Type → Type} {α : Type} [Monad m] [MonadStateOf Scopes m] [Builder m α]

/-- The body of a declaration, in a frame of its own. -/
def lowerBody (s : Source) (lower : Lower m α) (n : Concrete.Node)
    (header : List (Option Concrete.Node)) : m (Option α) :=
  within false (lowerStatements s lower (n.bodyNodes header) n)

/-- The expression a class is derived from. -/
def superclassNode? (n : Concrete.Node) : Option Concrete.Node :=
  (n.field? .superclass).bind fun c =>
    if c.kind = .superclass then c.namedChildren.head? else some c

def lowerClass (s : Source) (lower : Lower m α) (n : Concrete.Node) : m α := do
  let name ← lowerField lower n .name
  let superclass ← lowerOption lower (superclassNode? n)
  let body ← lowerBody s lower n [n.field? .name, n.field? .superclass]
  addDocumentable s .classDecl [.ofOption name, .ofOption superclass, .ofOption body] n

def lowerModule (s : Source) (lower : Lower m α) (n : Concrete.Node) : m α := do
  let name ← lowerField lower n .name
  let body ← lowerBody s lower n [n.field? .name]
  addDocumentable s .moduleDecl [.ofOption name, .ofOption body] n

def lowerSingletonClass (s : Source) (lower : Lower m α) (n : Concrete.Node) : m α := do
  let object ← lowerField lower n .value
  let body ← lowerBody s lower n [n.field? .value]
  add s .singletonClass [.ofOption object, .ofOption body] n

/-- Parameters and body of a method or block, in a frame of their own. -/
def lowerCallable (s : Source) (lower : Lower m α) (seesOuter : Bool) (n : Concrete.Node)
    (header : List (Option Concrete.Node)) : m (α × Option α) :=
  within seesOuter do
    let parameters ← lowerParameters s lower (n.field? .parameters)
    let body ← lowerStatements s lower (n.bodyNodes header) n
    pure (parameters, body)

def lowerMethod (s : Source) (lower : Lower m α) (n : Concrete.Node) : m α := do
  let (parameters, body) ← lowerCallable s lower false n [n.field? .name, n.field? .parameters]
  addDocumentable s .method [symbol (fieldText s n .name), .node parameters, .ofOption body] n

def lowerSingletonMethod (s : Source) (lower : Lower m α) (n : Concrete.Node) : m α := do
  let object ← lowerField lower n .object
  let (parameters, body) ←
    lowerCallable s lower false n [n.field? .object, n.field? .name, n.field? .parameters]
  addDocumentable s .singletonMethod
    [.ofOption object, symbol (fieldText s n .name), .node parameters, .ofOption body] n

end Lowering
end RubyIndex
