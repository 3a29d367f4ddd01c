import RubyIndex.Lowering.Basic

/-!
# Parameters and assignment targets

Both declare local variables.

* `targetNames`, the plain names in an assignment target;
* `lowerParameter`, `lowerParameters`, the parameters of methods and blocks.
-/

namespace RubyIndex
namespace Lowering

open Concrete (Source)
open Syntax (Kind Child Leaf)

/-! ## Targets -/

mutual

/-- The names an assignment to a target declares.  The parts of a call, an element or a scoped
constant are read and not assigned. -/
def targetNames (s : Source) : Concrete.Node → List String
  | n@⟨_, kind, _, _, _, _, children⟩ =>
      match kind with
      | .identifier => [s.text n]
      | .call | .elementReference | .scopeResolution => []
      | _ => targetNamesOf s children

def targetNamesOf (s : Source) : List Concrete.Node → List String
  | [] => []
  | n :: rest =>
      if n.named && !n.isExtra then targetNames s n ++ targetNamesOf s rest
      else targetNamesOf s rest

end

/-! ## Parameters -/

variable {m : Type → Type} {α : Type} [Monad m] [MonadStateOf Scopes m] [Builder m α]

/-- A parameter with a name of its own and perhaps a default. -/
def lowerDefaulted (s : Source) (lower : Lower m α) (n : Concrete.Node) : m α := do
  let name := fieldText s n .name
  declare name
  let default ← lowerField lower n .value
  let kind :=
    if n.kind = .optionalParameter then Kind.optionalParameter
    else if default.isSome then Kind.optionalKeyword
    else Kind.keywordParameter
  add s kind (symbol name :: default.toList.map .node) n

/-- A parameter that takes all the rest of some sort, and need not have a name. -/
def lowerCollecting (s : Source) (kind : Kind) (n : Concrete.Node) : m α :=
  match n.field? .name with
  | some nameNode => do
      let name := s.text nameNode
      declare name
      add s kind [symbol name] n
  | none => add s kind [absent] n

mutual

/-- Lowers a parameter and declares its name.  A destructured one has parameters of its own. -/
def lowerParameter (s : Source) (lower : Lower m α) : Concrete.Node → m (Option α)
  | n@⟨_, kind, _, _, _, _, children⟩ =>
      match kind with
      | .identifier => do
          let name := s.text n
          declare name
          let node ← add s .parameter [symbol name] n
          pure (some node)
      | .optionalParameter | .keywordParameter => do
          let node ← lowerDefaulted s lower n
          pure (some node)
      | .splatParameter => do
          let node ← lowerCollecting s .restParameter n
          pure (some node)
      | .hashSplatParameter => do
          let node ← lowerCollecting s .restKeywords n
          pure (some node)
      | .blockParameter => do
          let node ← lowerCollecting s .blockParameter n
          pure (some node)
      | .forwardParameter => do
          let node ← add s .forwardedParameters [] n
          pure (some node)
      | .destructuredParameter => do
          let parts ← lowerParameterList s lower children
          let node ← add s .other (parts.map .node) n
          pure (some node)
      | _ => pure none

def lowerParameterList (s : Source) (lower : Lower m α) : List Concrete.Node → m (List α)
  | [] => pure []
  | n :: rest =>
      if n.named && !n.isExtra then do
        let node ← lowerParameter s lower n
        let nodes ← lowerParameterList s lower rest
        pure (node.toList ++ nodes)
      else lowerParameterList s lower rest

end

/-- The parameter list of a method or block, without a range when none was written. -/
def lowerParameters (s : Source) (lower : Lower m α) : Option Concrete.Node → m α
  | none => Builder.node .parameterList [] none none
  | some n => do
      let nodes ← lowerParameterList s lower n.children
      add s .parameterList (nodes.map .node) n

end Lowering
end RubyIndex
