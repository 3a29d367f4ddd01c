import RubyIndex.Lowering.Call

/-!
# Lowering of constants and assignments

A plain name on the left is declared before the right side is lowered.  Assignments to attributes
and elements are sends of the methods that end in `=`.
-/

namespace RubyIndex
namespace Lowering

open Concrete (Source)
open Syntax (Kind Child Leaf)

variable {m : Type → Type} {α : Type} [Monad m] [MonadStateOf Scopes m] [Builder m α]

/-! ## Constants -/

/-- The scope of a scoped constant; none written means the top level. -/
def lowerScope (lower : Lower m α) (n : Concrete.Node) : m (Option α) :=
  match n.field? .scope with
  | some scope => lower scope
  | none => do
      let top ← Builder.node .topScope [] none none
      pure (some top)

def lowerScopeResolution (s : Source) (lower : Lower m α) (n : Concrete.Node) : m α := do
  let scope ← lowerScope lower n
  let isMethod := (n.field? .name).elim false fun name => name.kind = .identifier
  let kind := if isMethod then Kind.send else Kind.const
  add s kind [.ofOption scope, symbol (fieldText s n .name)] n

/-! ## Assignments -/

/-- The right side of an assignment; several values make an array. -/
def lowerValue (s : Source) (lower : Lower m α) : Option Concrete.Node → m (Option α)
  | none => pure none
  | some n =>
      if n.kind = .rightAssignmentList then do
        let node ← lowerGeneric s lower .array n
        pure (some node)
      else lower n

/-- An assignment to a name that is visible at once. -/
def lowerLocalAssignment (s : Source) (lower : Lower m α) (left n : Concrete.Node) : m α := do
  let name := s.text left
  declare name
  let value ← lowerValue s lower (n.field? .right)
  add s .localAssign [symbol name, .ofOption value] n

/-- An assignment to a variable of another sort. -/
def lowerVariableAssignment (s : Source) (lower : Lower m α) (kind : Kind)
    (left n : Concrete.Node) : m α := do
  let value ← lowerValue s lower (n.field? .right)
  add s kind [symbol (s.text left), .ofOption value] n

/-- An assignment to a target of a given kind. -/
def lowerAssignmentTo (s : Source) (lower : Lower m α) (left n : Concrete.Node) : m α :=
  match left.kind with
  | .identifier => lowerLocalAssignment s lower left n
  | .instanceVariable => lowerVariableAssignment s lower .instanceAssign left n
  | .classVariable => lowerVariableAssignment s lower .classAssign left n
  | .globalVariable => lowerVariableAssignment s lower .globalAssign left n
  | .constant => do
      let value ← lowerValue s lower (n.field? .right)
      addDocumentable s .constAssign [absent, symbol (s.text left), .ofOption value] n
  | .scopeResolution => do
      let scope ← lowerScope lower left
      let value ← lowerValue s lower (n.field? .right)
      addDocumentable s .constAssign
        [.ofOption scope, symbol (fieldText s left .name), .ofOption value] n
  | .call => do
      let receiver ← lowerField lower left .receiver
      let value ← lowerValue s lower (n.field? .right)
      add s .send
        [.ofOption receiver, symbol (fieldText s left .method ++ "="), .ofOption value] n
  | .elementReference => do
      let (object, indices) ← lowerElement lower left
      let value ← lowerValue s lower (n.field? .right)
      add s .send
        (.ofOption object :: symbol "[]=" :: indices.map .node ++ [.ofOption value]) n
  | _ => do
      declareAll (targetNames s left)
      let target ← lower left
      let value ← lowerValue s lower (n.field? .right)
      add s .other [.ofOption target, .ofOption value] n

def lowerAssignment (s : Source) (lower : Lower m α) (n : Concrete.Node) : m α :=
  match n.field? .left with
  | some left => lowerAssignmentTo s lower left n
  | none => lowerGeneric s lower .other n

/-- An assignment such as `x ||= v`. -/
def lowerOperatorAssignment (s : Source) (lower : Lower m α) (n : Concrete.Node) : m α :=
  match n.field? .left with
  | some left =>
      if left.kind = .identifier then lowerLocalAssignment s lower left n
      else do
        declareAll (targetNames s left)
        lowerGeneric s lower .other n
  | none => lowerGeneric s lower .other n

end Lowering
end RubyIndex
