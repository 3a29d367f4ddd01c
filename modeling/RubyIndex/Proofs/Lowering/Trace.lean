import RubyIndex.Proofs.Lowering.Targets
import RubyIndex.Proofs.Lowering.Terms
import RubyIndex.Proofs.Lowering.Events

/-!
# The events of a text

Which names a construct declares, which frames it opens and in which order it comes to the nodes
below it depends on the text alone, and not on the variables known so far.  This file reads the
events off the concrete nodes.

* `constructEvents`, the events of each construct, given those of the nodes below;
* `trace`, the events of a node, down to a depth below which nothing is looked at;
* `Follows`, what it means that a step of lowering does what events say.
-/

namespace RubyIndex
namespace Lowering

open Concrete (Source Field)
open Syntax (Term)

/-! ## Parts of constructs -/

/-- Declarations of names, one after the other. -/
def declarations (names : List String) : List Event :=
  names.map .declare

/-- Declarations of the names that an assignment to a target assigns to. -/
def targetEvents (s : Source) (target : Concrete.Node) : List Event :=
  declarations (target.targets.map s.text)

/-- Events in a frame of their own. -/
def framed (seesOuter : Bool) (events : List Event) : List Event :=
  .enter seesOuter :: events ++ [.leave]

section Rules

variable (s : Source) (below : Concrete.Node → List Event)

/-- The events of a node that may be missing. -/
def optionEvents (node : Option Concrete.Node) : List Event :=
  node.elim [] below

/-- The events of the child with a role. -/
def fieldEvents (n : Concrete.Node) (role : Field) : List Event :=
  optionEvents below (n.field? role)

/-- The events of all constructs a node consists of. -/
def genericEvents (n : Concrete.Node) : List Event :=
  n.namedChildren.flatMap below

mutual

/-- A parameter is declared before its default is looked at. -/
def parameterEvents : Concrete.Node → List Event
  | n@⟨_, kind, _, _, _, _, children⟩ =>
      match kind with
      | .identifier => [.declare (s.text n)]
      | .optionalParameter | .keywordParameter =>
          .declare (fieldText s n .name) :: fieldEvents below n .value
      | .splatParameter | .hashSplatParameter | .blockParameter =>
          (n.field? .name).elim [] fun name => [.declare (s.text name)]
      | .destructuredParameter => parameterListEvents children
      | _ => []

def parameterListEvents : List Concrete.Node → List Event
  | [] => []
  | n :: rest =>
      if n.named && !n.isExtra then parameterEvents n ++ parameterListEvents rest
      else parameterListEvents rest

end

/-- Parameters and body of a method or block. -/
def callableEvents (seesOuter : Bool) (n : Concrete.Node) (header : List (Option Concrete.Node)) :
    List Event :=
  framed seesOuter
    ((n.field? .parameters).elim [] (fun list => parameterListEvents s below list.children) ++
      (n.bodyNodes header).flatMap below)

/-- The body of a class or module. -/
def bodyEvents (n : Concrete.Node) (header : List (Option Concrete.Node)) : List Event :=
  framed false ((n.bodyNodes header).flatMap below)

/-- The object of an element reference and its indices. -/
def elementEvents (n : Concrete.Node) : List Event :=
  fieldEvents below n .object ++ (n.namedChildrenExcept [n.field? .object]).flatMap below

/-- The right side of an assignment. -/
def valueEvents (node : Option Concrete.Node) : List Event :=
  node.elim [] fun n => if n.kind = .rightAssignmentList then genericEvents below n else below n

/-- A plain name is declared before its value is looked at; so are the names in a target of several
parts, but not those in an attribute, an element or a constant. -/
def assignmentEvents (left n : Concrete.Node) : List Event :=
  match left.kind with
  | .identifier => .declare (s.text left) :: valueEvents below (n.field? .right)
  | .instanceVariable | .classVariable | .globalVariable | .constant =>
      valueEvents below (n.field? .right)
  | .scopeResolution => fieldEvents below left .scope ++ valueEvents below (n.field? .right)
  | .call => fieldEvents below left .receiver ++ valueEvents below (n.field? .right)
  | .elementReference => elementEvents below left ++ valueEvents below (n.field? .right)
  | _ =>
      targetEvents s left ++ (below left ++ valueEvents below (n.field? .right))

/-- An assignment with an operator declares every name in its target. -/
def operatorAssignmentEvents (left n : Concrete.Node) : List Event :=
  if left.kind = .identifier then .declare (s.text left) :: valueEvents below (n.field? .right)
  else targetEvents s left ++ genericEvents below n

/-- Of the parts of a text, only an interpolation holds names. -/
def partEvents (part : Concrete.Node) : List Event :=
  if part.kind = .interpolation then below part else []

/-- The values behind a `return`, one by one or in a list. -/
def returnedEvents (n : Concrete.Node) : List Event :=
  if n.kind = .argumentList then genericEvents below n else below n

/-! ## Constructs -/

/-- The events of a construct. -/
def constructEvents (n : Concrete.Node) : List Event :=
  match n.kind with
  | .classNode =>
      fieldEvents below n .name ++ (optionEvents below (superclassNode? n) ++
        bodyEvents below n [n.field? .name, n.field? .superclass])
  | .moduleNode => fieldEvents below n .name ++ bodyEvents below n [n.field? .name]
  | .singletonClass => fieldEvents below n .value ++ bodyEvents below n [n.field? .value]
  | .method => callableEvents s below false n [n.field? .name, n.field? .parameters]
  | .singletonMethod =>
      fieldEvents below n .object ++
        callableEvents s below false n [n.field? .object, n.field? .name, n.field? .parameters]
  | .call =>
      fieldEvents below n .receiver ++ ((n.field? .arguments).elim [] (genericEvents below) ++
        (n.field? .block).elim [] fun block =>
          callableEvents s below true block [block.field? .parameters])
  | .block | .doBlock => callableEvents s below true n [n.field? .parameters]
  | .lambda => framed true (genericEvents below n)
  | .identifier => [.mention (s.text n) (s.range n)]
  | .scopeResolution => fieldEvents below n .scope
  | .assignment =>
      (n.field? .left).elim (genericEvents below n) fun left => assignmentEvents s below left n
  | .operatorAssignment =>
      (n.field? .left).elim (genericEvents below n) fun left =>
        operatorAssignmentEvents s below left n
  | .constant | .selfNode | .nilNode | .trueNode | .falseNode | .integer | .float
  | .heredocBeginning | .simpleSymbol | .hashKeySymbol
  | .instanceVariable | .classVariable | .globalVariable => []
  | .string | .bareString | .subshell | .delimitedSymbol | .bareSymbol =>
      n.namedChildren.flatMap (partEvents below)
  | .pair => fieldEvents below n .key ++ fieldEvents below n .value
  | .range => fieldEvents below n .first ++ fieldEvents below n .last
  | .returnNode =>
      n.namedChildren.flatMap (returnedEvents below)
  | .binary =>
      match n.field? .left, n.field? .operator, n.field? .right with
      | some left, some _, some right => below left ++ below right
      | _, _, _ => genericEvents below n
  | .unary =>
      match (n.field? .operator).bind fun operator => unaryMethod? (s.text operator),
          n.field? .operand with
      | some _, some operand => below operand
      | _, _ => genericEvents below n
  | .elementReference => elementEvents below n
  | .exceptionVariable => targetEvents s n ++ genericEvents below n
  | .forNode => (n.field? .pattern).elim [] (targetEvents s) ++ genericEvents below n
  | _ => genericEvents below n

/-- The events of a node by its kind. -/
def nodeEvents (n : Concrete.Node) : List Event :=
  match n.kind with
  | .comment | .heredocBody | .emptyStatement => []
  | _ => constructEvents s below n

end Rules

/-- The events of a node and what is below it, to a depth at which nothing happens any more. -/
def trace (s : Source) : Nat → Concrete.Node → List Event
  | 0 => fun _ => []
  | depth + 1 => nodeEvents s (trace s depth)

/-! ## Steps that follow events -/

/-- A step does to the frames what some balanced events do to them, one after the other, and results
in something with the local variables that look-ups among these events find, after some that are
known from before. -/
structure Follows {α : Type} (step : Lowering α) (events : List Event) (known : List Term)
    (vars : α → List Term) : Prop where
  balanced : Balanced events
  scopes_eq : ∀ scopes, (step.run scopes).run.2 = replay events scopes
  vars_eq : ∀ scopes, vars (step.run scopes).run.1 = known ++ found events scopes

namespace Follows

variable {α β : Type} {step : Lowering α} {next : α → Lowering β} {events later : List Event}
  {known : List Term} {vars : α → List Term} {vars' : β → List Term}

theorem pure {a : α} (h : vars a = known) : Follows (pure a) [] known vars where
  balanced := .nil
  scopes_eq := fun _ => rfl
  vars_eq := by
    intro scopes
    rw [found_nil, List.append_nil]
    exact h

/-- The variables of what comes first are known to what comes next. -/
theorem bind (hstep : Follows step events [] vars)
    (hnext : ∀ a, Follows (next a) later (known ++ vars a) vars') :
    Follows (step >>= next) (events ++ later) known vars' where
  balanced := hstep.balanced.append (hnext (step.run .initial).run.1).balanced
  scopes_eq := by
    intro scopes
    have hlater := (hnext (step.run scopes).run.1).scopes_eq (step.run scopes).run.2
    rw [replay_append, ← hstep.scopes_eq scopes]
    exact hlater
  vars_eq := by
    intro scopes
    have hlater := (hnext (step.run scopes).run.1).vars_eq (step.run scopes).run.2
    rw [hstep.scopes_eq scopes, hstep.vars_eq scopes, List.nil_append, List.append_assoc]
      at hlater
    rw [found_append, ← hlater, ← hstep.scopes_eq scopes]
    rfl

/-- A step that only changes the frames. -/
theorem skip (hstep : Follows step events [] fun _ => [])
    (hnext : ∀ a, Follows (next a) later known vars') :
    Follows (step >>= next) (events ++ later) known vars' := by
  refine hstep.bind ?_
  intro a
  rw [List.append_nil]
  exact hnext a

/-- The last step with events, before a result is made. -/
theorem last (hstep : Follows step events [] vars)
    (hnext : ∀ a, Follows (next a) [] (known ++ vars a) vars') :
    Follows (step >>= next) events known vars' := by
  have hbind := hstep.bind hnext
  rwa [List.append_nil] at hbind

theorem declare (name : String) :
    Follows (Lowering.declare name) [.declare name] [] fun _ => [] where
  balanced := rfl
  scopes_eq := fun _ => rfl
  vars_eq := fun _ => rfl

theorem declareAll (names : List String) :
    Follows (Lowering.declareAll names) (declarations names) [] fun _ => [] where
  balanced := by
    induction names with
    | nil => exact .nil
    | cons name names ih => exact (declare name).balanced.append ih
  scopes_eq := by
    intro scopes
    rw [replay, declarations, List.foldl_map]
    rfl
  vars_eq := by
    -- no name is looked up on the way
    intro scopes
    induction names generalizing scopes with
    | nil => rfl
    | cons name names ih => exact ih (scopes.declare name)

/-- Lowering declares the names in a target. -/
theorem declareTargets (s : Source) (target : Concrete.Node) :
    Follows (Lowering.declareAll (targetNames s target)) (targetEvents s target) []
      fun _ => [] := by
  rw [targetNames_eq]
  exact declareAll (target.targets.map s.text)

/-- A step in a frame of its own. -/
theorem within (hstep : Follows step events known vars) (seesOuter : Bool) :
    Follows (within seesOuter step) (framed seesOuter events) known vars where
  balanced := hstep.balanced.framed seesOuter
  scopes_eq := by
    intro scopes
    have hinner := hstep.scopes_eq (scopes.push seesOuter)
    calc ((Lowering.within seesOuter step).run scopes).run.2
        = (step.run (scopes.push seesOuter)).run.2.pop := rfl
      _ = (replay events (scopes.push seesOuter)).pop := by rw [hinner]
      _ = replay (framed seesOuter events) scopes := by simp [framed, Event.apply]
  vars_eq := by
    intro scopes
    have hinner := hstep.vars_eq (scopes.push seesOuter)
    calc vars ((Lowering.within seesOuter step).run scopes).run.1
        = vars (step.run (scopes.push seesOuter)).run.1 := rfl
      _ = known ++ found events (scopes.push seesOuter) := hinner
      _ = known ++ found (framed seesOuter events) scopes := by
          simp [framed, found, Event.found, Event.apply]

end Follows

end Lowering
end RubyIndex
