import RubyIndex.Store.Methods
import RubyIndex.Syntax.Naming
import RubyIndex.Typing.Declared

/-!
# Type inference

The candidate types of a node.  Literals and constants have their types by themselves; every other
node has them from at most one node, its *origin*: a call from its receiver, a variable from the
value last assigned to it, an assignment from its value, a sequence from its last statement.  No
candidates means that nothing is known.

* `selfType`, the type of `self`;
* `origin?`, the node whose types decide;
* `typesGiven`, the types of a node, given those of its origin;
* `typesOf`, `receiverTypes`, `calledMethods`, `targets`, what is known of a node.
-/

namespace RubyIndex
namespace Typing

open Syntax (Kind Tree)

/-- Candidate types, each once, in the order in which they were found. -/
abbrev Types := List String

/-! ## Literals and `self` -/

/-- The type of a literal. -/
def literalType : Kind → Option String
  | .str | .dynamicStr | .shellStr => some "String"
  | .sym | .dynamicSym => some "Symbol"
  | .int => some "Integer"
  | .float => some "Float"
  | .rational => some "Rational"
  | .complex => some "Complex"
  | .array => some "Array"
  | .hash => some "Hash"
  | .inclusiveRange | .exclusiveRange => some "Range"
  | .regexp => some "Regexp"
  | .trueLiteral => some "TrueClass"
  | .falseLiteral => some "FalseClass"
  | .nilLiteral => some "NilClass"
  | _ => none

/-- The method definition whose body a node belongs to; a method definition belongs to itself. -/
def methodScope? (t : Tree) (i : Nat) : Option Nat :=
  if (t.kind i).isMethodDefinition then some i else t.enclosingMethod? i

/-- The type of `self` at a node: the namespace around it or, in singleton methods and class bodies,
the metaclass of that namespace. -/
def selfType (t : Tree) (i : Nat) : String :=
  let (scope, singleton) :=
    match methodScope? t i with
    | some m => (t.methodOwner m, t.isSingletonMethod m)
    | none => (t.namespaceAt i, t.inSingletonContext i)
  if singleton then Name.metaclass scope else scope

/-! ## Methods -/

/-- The method that a receiver type has under a name. -/
def method? (s : Store) (name receiver : String) : Option Definition :=
  match Name.metaclassTarget? receiver with
  | some target => s.findMethod? name target .singletonMethod
  | none => s.findMethod? name receiver .instanceMethod

/-- What a method that is found on one of the receiver types is declared to return. -/
def returnedTypes (s : Store) (name : String) (receivers : Types) : Types :=
  (receivers.flatMap fun receiver =>
    ((method? s name receiver).bind Definition.method?).elim [] fun m =>
      m.returnTypes.flatMap fun declared => normalize declared receiver).eraseDups

/-! ## Local variables -/

/-- The method definition that declares a name as one of its parameters, if a node is inside one. -/
def declaringMethod? (t : Tree) (i : Nat) (name : String) : Option Nat :=
  (t.enclosingMethod? i).filter fun m => (t.parameters m).any fun p => t.name? p == some name

/-- The types that the stored definition of a method declares for a parameter. -/
def parameterTypes (s : Store) (t : Tree) (m : Nat) (name : String) : Types :=
  let parameter := do
    let qualified ← t.qualifiedName? m
    let definition ← s.find? qualified
    let method ← definition.method?
    method.parameter? name
  parameter.elim [] fun p =>
    (p.types.flatMap fun declared => normalize declared (selfType t m)).eraseDups

/-- Whether an assignment to a name ends before the variable `i` begins and belongs to the same
method. -/
def reaches (t : Tree) (i : Nat) (name : String) (start : Position) (a : Nat) : Bool :=
  t.name? a == some name &&
    ((t.range? a).elim false fun r => decide (r.stop ≤ start)) &&
    t.enclosingMethod? a == t.enclosingMethod? i

/-- The last assignment, in pre-order, that reaches a variable. -/
def reachingAssignment? (t : Tree) (i : Nat) (name : String) : Option Nat :=
  (t.range? i).bind fun range =>
    let scope := (t.enclosingMethod? i).getD t.root
    ((t.descendantsOf [.localAssign] scope).filter (reaches t i name range.start)).getLast?

/-! ## Types -/

/-- The node whose types decide those of a node. -/
def origin? (t : Tree) (i : Nat) : Option Nat :=
  match t.kind i with
  | .localVar =>
      (t.name? i).bind fun name =>
        if (declaringMethod? t i name).isSome then none
        else (reachingAssignment? t i name).bind fun a => t.childNode? a 1
  | .send | .safeSend => t.receiver? i
  | .block => (t.childNode? i 0).filter fun call => (t.kind call).isCall
  | .sequence => (t.childNodes i).getLast?
  | .localAssign | .instanceAssign | .classAssign | .globalAssign => t.childNode? i 1
  | _ => none

/-- The types of a node when its origin, if any, has the types `given`. -/
def typesGiven (s : Store) (t : Tree) (i : Nat) (given : Types) : Types :=
  match t.kind i with
  | .const => ((t.reference? i).map fun r => Name.metaclass (s.resolve r)).toList
  | .localVar =>
      match (t.name? i).bind fun name => (declaringMethod? t i name).map fun m => (m, name) with
      | some (m, name) => parameterTypes s t m name
      | none => given
  | .send | .safeSend =>
      let receivers := if (t.receiver? i).isSome then given else [selfType t i]
      (t.methodName? i).elim [] fun name => returnedTypes s name receivers
  | .selfRef => [selfType t i]
  | .block | .sequence | .localAssign | .instanceAssign | .classAssign | .globalAssign => given
  | kind => (literalType kind).toList

/-- The types of a node when origins are followed a number of times. -/
def typesWithin (s : Store) (t : Tree) : Nat → Nat → Types
  | 0, _ => []
  | steps + 1, i => typesGiven s t i ((origin? t i).elim [] (typesWithin s t steps))

/-- The types of a node.  Origins that never come back to a node end before all nodes of the tree
have been passed. -/
def typesOf (s : Store) (t : Tree) (i : Nat) : Types :=
  typesWithin s t t.size i

/-! ## Calls and references -/

/-- The types a call is dispatched on; a block has those of its call. -/
def receiverTypes (s : Store) (t : Tree) (i : Nat) : Types :=
  match t.kind i with
  | .send | .safeSend => (t.receiver? i).elim [selfType t i] (typesOf s t)
  | .block =>
      match _h : t.childNode? i 0 with
      | some call => receiverTypes s t call
      | none => []
  | _ => []
termination_by i
decreasing_by exact Tree.childNode?_lt _h

/-- The call of a node: its own, or that of a block. -/
def callOf? (t : Tree) (i : Nat) : Option Nat :=
  if t.kind i = .block then t.childNode? i 0 else some i

/-- The definitions a call may be dispatched to, one per receiver type that has the method. -/
def calledMethods (s : Store) (t : Tree) (i : Nat) : List Definition :=
  match (callOf? t i).bind fun call => (t.methodName? call).map fun name => (call, name) with
  | some (call, name) => ((receiverTypes s t call).filterMap (method? s name)).eraseDups
  | none => []

/-- The definitions a node refers to, or declares. -/
def targets (s : Store) (t : Tree) (i : Nat) : List Definition :=
  match t.kind i with
  | .const => ((t.reference? i).bind fun r => s.find? (s.resolve r)).toList
  | .send | .safeSend | .block => calledMethods s t i
  | .classDecl | .moduleDecl | .constAssign | .method | .singletonMethod =>
      ((t.qualifiedName? i).bind s.find?).toList
  | _ => []

end Typing
end RubyIndex
