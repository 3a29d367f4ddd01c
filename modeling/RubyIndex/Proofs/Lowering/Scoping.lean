import RubyIndex.Proofs.Lowering.Trace

/-!
# Local variables of lowered terms

Every rule of lowering follows the events of its construct.  So a node leaves all frames around the
innermost one as they were, adds to that one only the names declared in it, and a name on its own
becomes a local variable exactly when it was declared before in a frame that is still in sight.

* `Term.localVars`, the local variables in a term;
* `follows_lowerConstruct`, the rule for each construct follows its events;
* `lowersAlong_lowerWithin`, so does the lowering of a node to any depth.
-/

namespace RubyIndex

namespace Syntax
namespace Term

mutual

/-- The local variables in a term, in the order in which they are laid out. -/
def localVars : Term → List Term
  | t@⟨kind, children, _, _⟩ =>
      localVarsOf children ++ if kind = .localVar then [t] else []

def localVarsOf : List (Child Term) → List Term
  | [] => []
  | .leaf _ :: rest => localVarsOf rest
  | .node t :: rest => localVars t ++ localVarsOf rest

end

/-- The local variables in some terms. -/
def localVarsAll (terms : List Term) : List Term :=
  terms.flatMap localVars

section Children

variable {t : Term} {terms terms' : List Term} {children children' : List (Child Term)}

@[simp] theorem localVarsAll_nil : localVarsAll [] = [] := rfl

@[simp] theorem localVarsAll_cons : localVarsAll (t :: terms) = localVars t ++ localVarsAll terms :=
  List.flatMap_cons

@[simp] theorem localVarsAll_append :
    localVarsAll (terms ++ terms') = localVarsAll terms ++ localVarsAll terms' :=
  List.flatMap_append

@[simp] theorem localVarsOf_nil : localVarsOf [] = [] := by
  simp [localVarsOf]

@[simp] theorem localVarsOf_node :
    localVarsOf (.node t :: children) = localVars t ++ localVarsOf children := by
  simp [localVarsOf]

@[simp] theorem localVarsOf_leaf {l : Leaf} :
    localVarsOf (.leaf l :: children) = localVarsOf children := by
  simp [localVarsOf]

@[simp] theorem localVarsOf_symbol {name : String} :
    localVarsOf (Lowering.symbol name :: children) = localVarsOf children :=
  localVarsOf_leaf

@[simp] theorem localVarsOf_absent :
    localVarsOf (Lowering.absent :: children) = localVarsOf children :=
  localVarsOf_leaf

@[simp] theorem localVarsOf_ofOption {term : Option Term} :
    localVarsOf (.ofOption term :: children) =
      localVarsAll term.toList ++ localVarsOf children := by
  cases term <;> simp [Child.ofOption]

@[simp] theorem localVarsOf_map : localVarsOf (terms.map .node) = localVarsAll terms := by
  induction terms with
  | nil => simp
  | cons t terms ih => simp [ih]

@[simp] theorem localVarsOf_append :
    localVarsOf (children ++ children') = localVarsOf children ++ localVarsOf children' := by
  induction children with
  | nil => simp
  | cons c children ih => cases c <;> simp [ih]

/-- A term that is no local variable has those of its children. -/
theorem localVars_eq {kind : Kind} {range : Option Range} {row : Option Nat}
    (h : kind ≠ .localVar) : localVars ⟨kind, children, range, row⟩ = localVarsOf children := by
  simp [localVars, h]

end Children

end Term
end Syntax

namespace Lowering

open Concrete (Source)
open Syntax (Kind Child Leaf Term)
open Syntax.Term (localVars localVarsOf localVarsAll localVars_eq)

/-- A lowering of nodes that follows their events. -/
def LowersAlong (lower : Lower Lowering Term) (below : Concrete.Node → List Event) : Prop :=
  ∀ n, Follows (lower n) (below n) [] fun term => localVarsAll term.toList

variable {s : Source} {lower : Lower Lowering Term} {below : Concrete.Node → List Event}

/-! ## Nodes below -/

theorem follows_lowerAll (hlower : LowersAlong lower below) (nodes : List Concrete.Node) :
    Follows (lowerAll lower nodes) (nodes.flatMap below) [] localVarsAll := by
  induction nodes with
  | nil => exact .pure rfl
  | cons n rest ih =>
      refine (hlower n).bind ?_
      intro term
      refine ih.last ?_
      intro terms
      exact .pure (by simp)

theorem follows_lowerOption (hlower : LowersAlong lower below) (node : Option Concrete.Node) :
    Follows (lowerOption lower node) (optionEvents below node) []
      fun term => localVarsAll term.toList := by
  cases node with
  | none => exact .pure rfl
  | some n => exact hlower n

theorem follows_lowerField (hlower : LowersAlong lower below) (n : Concrete.Node)
    (role : Concrete.Field) :
    Follows (lowerField lower n role) (fieldEvents below n role) []
      fun term => localVarsAll term.toList :=
  follows_lowerOption hlower (n.field? role)

theorem follows_lowerGeneric (hlower : LowersAlong lower below) {kind : Kind}
    (hkind : kind ≠ .localVar) (n : Concrete.Node) :
    Follows (lowerGeneric s lower kind n) (genericEvents below n) [] localVars := by
  refine (follows_lowerAll hlower n.namedChildren).last ?_
  intro terms
  exact .pure (by simp [localVars_eq hkind])

theorem localVarsAll_joined (owner : Concrete.Node) (terms : List Term) :
    localVarsAll (joined s owner terms).toList = localVarsAll terms := by
  match terms with
  | [] => rfl
  | [term] => simp [joined]
  | first :: second :: rest => simp [joined, localVars_eq]

theorem follows_lowerStatements (hlower : LowersAlong lower below) (nodes : List Concrete.Node)
    (owner : Concrete.Node) :
    Follows (lowerStatements s lower nodes owner) (nodes.flatMap below) []
      fun term => localVarsAll term.toList := by
  rw [lowerStatements_eq]
  refine (follows_lowerAll hlower nodes).last ?_
  intro terms
  exact .pure (localVarsAll_joined owner terms)

/-- A rule that always makes a term. -/
theorem follows_some {step : Lowering Term} {events : List Event}
    (h : Follows step events [] localVars) :
    Follows (do let term ← step; pure (some term)) events []
      fun term => localVarsAll term.toList := by
  refine h.last ?_
  intro term
  exact .pure (by simp)

/-! ## Parameters -/

theorem follows_lowerDefaulted (hlower : LowersAlong lower below) (n : Concrete.Node) :
    Follows (lowerDefaulted s lower n)
      (.declare (fieldText s n .name) :: fieldEvents below n .value) [] localVars := by
  refine (Follows.declare (fieldText s n .name)).skip ?_
  intro _
  refine (follows_lowerField hlower n .value).last ?_
  intro default
  refine .pure ?_
  rw [localVars_eq (by grind)]
  simp

theorem follows_lowerCollecting {kind : Kind} (hkind : kind ≠ .localVar) (n : Concrete.Node) :
    Follows (lowerCollecting s kind n)
      ((n.field? .name).elim [] fun name => [.declare (s.text name)]) [] localVars := by
  unfold lowerCollecting
  split
  · rename_i name hname
    rw [hname]
    refine (Follows.declare (s.text name)).last ?_
    intro _
    exact .pure (by simp [localVars_eq hkind])
  · rename_i hname
    rw [hname]
    exact .pure (by simp [localVars_eq hkind])

mutual

theorem follows_lowerParameter (hlower : LowersAlong lower below) :
    ∀ n, Follows (lowerParameter s lower n) (parameterEvents s below n) []
      fun term => localVarsAll term.toList
  | ⟨id, kind, named, start, stop, role, children⟩ => by
      unfold lowerParameter parameterEvents
      cases kind with
      | identifier =>
          refine (Follows.declare _).last ?_
          intro _
          exact .pure (by simp [localVars_eq])
      | optionalParameter => exact follows_some (follows_lowerDefaulted hlower _)
      | keywordParameter => exact follows_some (follows_lowerDefaulted hlower _)
      | splatParameter => exact follows_some (follows_lowerCollecting (by simp) _)
      | hashSplatParameter => exact follows_some (follows_lowerCollecting (by simp) _)
      | blockParameter => exact follows_some (follows_lowerCollecting (by simp) _)
      | forwardParameter => exact .pure (by simp [localVars_eq])
      | destructuredParameter =>
          refine (follows_lowerParameterList hlower children).last ?_
          intro parts
          exact .pure (by simp [localVars_eq])
      | _ => exact .pure rfl

theorem follows_lowerParameterList (hlower : LowersAlong lower below) :
    ∀ nodes, Follows (lowerParameterList s lower nodes) (parameterListEvents s below nodes) []
      localVarsAll
  | [] => by
      unfold lowerParameterList parameterListEvents
      exact .pure rfl
  | n :: rest => by
      unfold lowerParameterList parameterListEvents
      split
      · refine (follows_lowerParameter hlower n).bind ?_
        intro term
        refine (follows_lowerParameterList hlower rest).last ?_
        intro terms
        exact .pure (by simp)
      · exact follows_lowerParameterList hlower rest

end

theorem follows_lowerParameters (hlower : LowersAlong lower below) (node : Option Concrete.Node) :
    Follows (lowerParameters s lower node)
      (node.elim [] fun list => parameterListEvents s below list.children) [] localVars := by
  cases node with
  | none => exact .pure (by simp [localVars_eq])
  | some n =>
      refine (follows_lowerParameterList hlower n.children).last ?_
      intro terms
      exact .pure (by simp [localVars_eq])

/-! ## Declarations -/

theorem follows_lowerBody (hlower : LowersAlong lower below) (n : Concrete.Node)
    (header : List (Option Concrete.Node)) :
    Follows (lowerBody s lower n header) (bodyEvents below n header) []
      fun term => localVarsAll term.toList :=
  (follows_lowerStatements hlower (n.bodyNodes header) n).within false

theorem follows_lowerClass (hlower : LowersAlong lower below) (n : Concrete.Node) :
    Follows (lowerClass s lower n)
      (fieldEvents below n .name ++ (optionEvents below (superclassNode? n) ++
        bodyEvents below n [n.field? .name, n.field? .superclass])) [] localVars := by
  refine (follows_lowerField hlower n .name).bind ?_
  intro name
  refine (follows_lowerOption hlower (superclassNode? n)).bind ?_
  intro superclass
  refine (follows_lowerBody hlower n _).last ?_
  intro body
  exact .pure (by simp [localVars_eq])

theorem follows_lowerModule (hlower : LowersAlong lower below) (n : Concrete.Node) :
    Follows (lowerModule s lower n)
      (fieldEvents below n .name ++ bodyEvents below n [n.field? .name]) [] localVars := by
  refine (follows_lowerField hlower n .name).bind ?_
  intro name
  refine (follows_lowerBody hlower n _).last ?_
  intro body
  exact .pure (by simp [localVars_eq])

theorem follows_lowerSingletonClass (hlower : LowersAlong lower below) (n : Concrete.Node) :
    Follows (lowerSingletonClass s lower n)
      (fieldEvents below n .value ++ bodyEvents below n [n.field? .value]) [] localVars := by
  refine (follows_lowerField hlower n .value).bind ?_
  intro object
  refine (follows_lowerBody hlower n _).last ?_
  intro body
  exact .pure (by simp [localVars_eq])

theorem follows_lowerCallable (hlower : LowersAlong lower below) (seesOuter : Bool)
    (n : Concrete.Node) (header : List (Option Concrete.Node)) :
    Follows (lowerCallable s lower seesOuter n header) (callableEvents s below seesOuter n header)
      [] fun parts => localVars parts.1 ++ localVarsAll parts.2.toList := by
  refine Follows.within ?_ seesOuter
  refine (follows_lowerParameters hlower (n.field? .parameters)).bind ?_
  intro parameters
  refine (follows_lowerStatements hlower (n.bodyNodes header) n).last ?_
  intro body
  exact .pure (by simp)

theorem follows_lowerMethod (hlower : LowersAlong lower below) (n : Concrete.Node) :
    Follows (lowerMethod s lower n)
      (callableEvents s below false n [n.field? .name, n.field? .parameters]) [] localVars := by
  refine (follows_lowerCallable hlower false n _).last ?_
  rintro ⟨parameters, body⟩
  exact .pure (by simp [localVars_eq])

theorem follows_lowerSingletonMethod (hlower : LowersAlong lower below) (n : Concrete.Node) :
    Follows (lowerSingletonMethod s lower n)
      (fieldEvents below n .object ++
        callableEvents s below false n [n.field? .object, n.field? .name, n.field? .parameters])
      [] localVars := by
  refine (follows_lowerField hlower n .object).bind ?_
  intro object
  refine (follows_lowerCallable hlower false n _).last ?_
  rintro ⟨parameters, body⟩
  exact .pure (by simp [localVars_eq])

/-! ## Calls -/

theorem follows_keywordHash (hlower : LowersAlong lower below) (pairs : List Concrete.Node) :
    Follows (keywordHash s lower pairs) (pairs.flatMap below) []
      fun term => localVarsAll term.toList := by
  unfold keywordHash
  split
  · refine (follows_lowerAll hlower pairs).last ?_
    intro terms
    exact .pure (by simp [localVars_eq])
  · rename_i hnone
    -- without a first or a last pair there is none
    have hempty : pairs = [] := by
      cases pairs with
      | nil => rfl
      | cons first rest => exact absurd rfl (hnone first _ rfl)
    rw [hempty]
    exact .pure rfl

theorem follows_lowerArgumentsAfter (hlower : LowersAlong lower below)
    (nodes : List Concrete.Node) :
    ∀ pairs, Follows (lowerArgumentsAfter s lower pairs nodes) ((pairs ++ nodes).flatMap below) []
      localVarsAll := by
  induction nodes with
  | nil =>
      intro pairs
      rw [List.append_nil]
      refine (follows_keywordHash hlower pairs).last ?_
      intro hash
      exact .pure rfl
  | cons n rest ih =>
      intro pairs
      unfold lowerArgumentsAfter
      split
      · -- one more pair of the same run
        have hrun := ih (pairs ++ [n])
        rwa [List.append_assoc] at hrun
      · rw [List.flatMap_append, List.flatMap_cons]
        refine (follows_keywordHash hlower pairs).bind ?_
        intro hash
        refine (hlower n).bind ?_
        intro term
        refine (ih []).last ?_
        intro terms
        exact .pure (by simp)

theorem follows_lowerArguments (hlower : LowersAlong lower below) (list : Concrete.Node) :
    Follows (lowerArguments s lower list) (genericEvents below list) [] localVarsAll :=
  follows_lowerArgumentsAfter hlower list.namedChildren []

theorem follows_lowerBlock (hlower : LowersAlong lower below) (block outer : Concrete.Node)
    (call : Option Term) :
    Follows (lowerBlock s lower block call outer)
      (callableEvents s below true block [block.field? .parameters])
      (localVarsAll call.toList) localVars := by
  refine (follows_lowerCallable hlower true block _).last ?_
  rintro ⟨parameters, body⟩
  exact .pure (by simp [localVars_eq])

/-- A call with its parts, and then its block if it has one. -/
theorem follows_call_or_block (hlower : LowersAlong lower below) (n : Concrete.Node) {kind : Kind}
    (hkind : kind ≠ .localVar) {children : List (Child Term)} {known : List Term}
    (hchildren : localVarsOf children = known) :
    Follows
      (match n.field? .block with
        | none => pure (documentable s kind children n)
        | some block =>
            lowerBlock s lower block
              (some ⟨kind, children, some (callRange s n), some (s.startRow n)⟩) n)
      ((n.field? .block).elim [] fun block =>
        callableEvents s below true block [block.field? .parameters])
      known localVars := by
  subst hchildren
  split
  · rename_i hblock
    rw [hblock]
    exact .pure (localVars_eq hkind)
  · rename_i block hblock
    rw [hblock]
    have hfollows := follows_lowerBlock (s := s) hlower block n
      (some ⟨kind, children, some (callRange s n), some (s.startRow n)⟩)
    simpa [localVars_eq hkind] using hfollows

theorem follows_lowerCall (hlower : LowersAlong lower below) (n : Concrete.Node) :
    Follows (lowerCall s lower n)
      (fieldEvents below n .receiver ++ ((n.field? .arguments).elim [] (genericEvents below) ++
        (n.field? .block).elim [] fun block =>
          callableEvents s below true block [block.field? .parameters])) [] localVars := by
  have hkind : (if n.hasChild .safeNavigation then Kind.safeSend else Kind.send) ≠ .localVar := by
    split <;> simp
  refine (follows_lowerField hlower n .receiver).bind ?_
  intro receiver
  dsimp only
  split
  · rename_i list hlist
    rw [hlist]
    refine (follows_lowerArguments hlower list).bind ?_
    intro arguments
    exact follows_call_or_block hlower n hkind (by simp)
  · rename_i hlist
    rw [hlist]
    exact follows_call_or_block hlower n hkind (by simp)

/-- A name on its own, in the frames at hand. -/
theorem run_lowerIdentifier (n : Concrete.Node) (scopes : Scopes) :
    ((lowerIdentifier s n : Lowering Term).run scopes).run =
      (if scopes.isLocal (s.text n) then localVar (s.text n) (s.range n)
        else written s .send [absent, symbol (s.text n)] n, scopes) := by
  cases hlocal : scopes.isLocal (s.text n)
  · simp [lowerIdentifier, add_eq, hlocal]
  · simp [lowerIdentifier, add_eq, hlocal, localVar, written]

/-- The one rule that looks a name up. -/
theorem follows_lowerIdentifier (n : Concrete.Node) :
    Follows (lowerIdentifier s n) [.mention (s.text n) (s.range n)] [] localVars := by
  refine ⟨rfl, ?_, ?_⟩
  · intro scopes
    rw [run_lowerIdentifier]
    rfl
  · intro scopes
    rw [run_lowerIdentifier]
    cases hlocal : scopes.isLocal (s.text n)
    · simp [found, Event.found, hlocal, written, localVars_eq]
    · simp [found, Event.found, hlocal, localVar, localVars]

theorem follows_lowerBinary (hlower : LowersAlong lower below) (n : Concrete.Node) :
    Follows (lowerBinary s lower n)
      (match n.field? .left, n.field? .operator, n.field? .right with
        | some left, some _, some right => below left ++ below right
        | _, _, _ => genericEvents below n) [] localVars := by
  have hgeneric : Follows (lowerGeneric s lower .other n) (genericEvents below n) [] localVars :=
    follows_lowerGeneric hlower (by simp) n
  unfold lowerBinary
  generalize n.field? .left = left, n.field? .operator = operator, n.field? .right = right
  match left, operator, right with
  | some left, some operator, some right =>
      refine (hlower left).bind ?_
      intro a
      refine (hlower right).last ?_
      intro b
      dsimp only
      split
      · exact .pure (by simp [localVars_eq])
      · exact .pure (by simp [localVars_eq])
  | none, _, _ => exact hgeneric
  | some _, none, _ => exact hgeneric
  | some _, some _, none => exact hgeneric

theorem follows_lowerUnary (hlower : LowersAlong lower below) (n : Concrete.Node) :
    Follows (lowerUnary s lower n)
      (match (n.field? .operator).bind fun operator => unaryMethod? (s.text operator),
          n.field? .operand with
        | some _, some operand => below operand
        | _, _ => genericEvents below n) [] localVars := by
  have hgeneric : Follows (lowerGeneric s lower .other n) (genericEvents below n) [] localVars :=
    follows_lowerGeneric hlower (by simp) n
  unfold lowerUnary
  generalize ((n.field? .operator).bind fun operator => unaryMethod? (s.text operator)) = name,
    n.field? .operand = operand
  match name, operand with
  | some name, some operand =>
      refine (hlower operand).last ?_
      intro term
      exact .pure (by simp [localVars_eq])
  | none, _ => exact hgeneric
  | some _, none => exact hgeneric

theorem follows_lowerElement (hlower : LowersAlong lower below) (n : Concrete.Node) :
    Follows (lowerElement lower n) (elementEvents below n) []
      fun parts => localVarsAll parts.1.toList ++ localVarsAll parts.2 := by
  refine (follows_lowerField hlower n .object).bind ?_
  intro object
  refine (follows_lowerAll hlower _).last ?_
  intro indices
  exact .pure rfl

theorem follows_lowerElementReference (hlower : LowersAlong lower below) (n : Concrete.Node) :
    Follows (lowerElementReference s lower n) (elementEvents below n) [] localVars := by
  refine (follows_lowerElement hlower n).last ?_
  rintro ⟨object, indices⟩
  exact .pure (by simp [localVars_eq])

/-! ## Constants and assignments -/

theorem follows_lowerScope (hlower : LowersAlong lower below) (n : Concrete.Node) :
    Follows (lowerScope lower n) (fieldEvents below n .scope) []
      fun term => localVarsAll term.toList := by
  unfold lowerScope fieldEvents optionEvents
  cases n.field? .scope with
  | none => exact .pure (by simp [localVars_eq])
  | some scope => exact hlower scope

theorem follows_lowerScopeResolution (hlower : LowersAlong lower below) (n : Concrete.Node) :
    Follows (lowerScopeResolution s lower n) (fieldEvents below n .scope) [] localVars := by
  refine (follows_lowerScope hlower n).last ?_
  intro scope
  refine .pure ?_
  rw [localVars_eq (by grind)]
  simp

theorem follows_lowerValue (hlower : LowersAlong lower below) (node : Option Concrete.Node) :
    Follows (lowerValue s lower node) (valueEvents below node) []
      fun term => localVarsAll term.toList := by
  cases node with
  | none => exact .pure rfl
  | some n =>
      unfold lowerValue valueEvents
      dsimp only [Option.elim]
      split
      · exact follows_some (follows_lowerGeneric hlower (by simp) n)
      · exact hlower n

theorem follows_lowerLocalAssignment (hlower : LowersAlong lower below) (left n : Concrete.Node) :
    Follows (lowerLocalAssignment s lower left n)
      (.declare (s.text left) :: valueEvents below (n.field? .right)) [] localVars := by
  refine (Follows.declare (s.text left)).skip ?_
  intro _
  refine (follows_lowerValue hlower (n.field? .right)).last ?_
  intro value
  exact .pure (by simp [localVars_eq])

theorem follows_lowerVariableAssignment (hlower : LowersAlong lower below) {kind : Kind}
    (hkind : kind ≠ .localVar) (left n : Concrete.Node) :
    Follows (lowerVariableAssignment s lower kind left n) (valueEvents below (n.field? .right)) []
      localVars := by
  refine (follows_lowerValue hlower (n.field? .right)).last ?_
  intro value
  exact .pure (by simp [localVars_eq hkind])

theorem follows_lowerAssignmentTo (hlower : LowersAlong lower below) (left n : Concrete.Node) :
    Follows (lowerAssignmentTo s lower left n) (assignmentEvents s below left n) [] localVars := by
  -- Whatever is assigned to, the value is lowered in the same way.
  have hright := follows_lowerValue (s := s) hlower (n.field? .right)
  have hother : Follows
      (do
        declareAll (targetNames s left)
        let target ← lower left
        let value ← lowerValue s lower (n.field? .right)
        add s .other [.ofOption target, .ofOption value] n)
      (targetEvents s left ++ (below left ++ valueEvents below (n.field? .right)))
      [] localVars := by
    refine (Follows.declareTargets s left).skip ?_
    intro _
    refine (hlower left).bind ?_
    intro target
    refine hright.last ?_
    intro value
    exact .pure (by simp [localVars_eq])
  unfold lowerAssignmentTo assignmentEvents
  cases left.kind with
  | identifier => exact follows_lowerLocalAssignment hlower left n
  | instanceVariable => exact follows_lowerVariableAssignment hlower (by simp) left n
  | classVariable => exact follows_lowerVariableAssignment hlower (by simp) left n
  | globalVariable => exact follows_lowerVariableAssignment hlower (by simp) left n
  | constant =>
      refine hright.last ?_
      intro value
      exact .pure (by simp [localVars_eq])
  | scopeResolution =>
      refine (follows_lowerScope hlower left).bind ?_
      intro scope
      refine hright.last ?_
      intro value
      exact .pure (by simp [localVars_eq])
  | call =>
      refine (follows_lowerField hlower left .receiver).bind ?_
      intro receiver
      refine hright.last ?_
      intro value
      exact .pure (by simp [localVars_eq])
  | elementReference =>
      refine (follows_lowerElement hlower left).bind ?_
      rintro ⟨object, indices⟩
      refine hright.last ?_
      intro value
      exact .pure (by simp [localVars_eq])
  | _ => exact hother

theorem follows_lowerAssignment (hlower : LowersAlong lower below) (n : Concrete.Node) :
    Follows (lowerAssignment s lower n)
      ((n.field? .left).elim (genericEvents below n) fun left => assignmentEvents s below left n)
      [] localVars := by
  unfold lowerAssignment
  cases n.field? .left with
  | none => exact follows_lowerGeneric hlower (by simp) n
  | some left => exact follows_lowerAssignmentTo hlower left n

/-- A construct that declares the names in a target before it comes to the nodes below. -/
theorem follows_lowerDeclaring (hlower : LowersAlong lower below) (target : Option Concrete.Node)
    (n : Concrete.Node) :
    Follows (lowerDeclaring s lower target n)
      (target.elim [] (targetEvents s) ++ genericEvents below n) [] localVars := by
  have hkind : Kind.other ≠ .localVar := by simp
  have hgeneric := follows_lowerGeneric (s := s) hlower hkind n
  cases target with
  | none => exact (Follows.declareAll []).skip fun _ => hgeneric
  | some target => exact (Follows.declareTargets s target).skip fun _ => hgeneric

theorem follows_lowerOperatorAssignment (hlower : LowersAlong lower below) (n : Concrete.Node) :
    Follows (lowerOperatorAssignment s lower n)
      ((n.field? .left).elim (genericEvents below n) fun left =>
        operatorAssignmentEvents s below left n) [] localVars := by
  unfold lowerOperatorAssignment operatorAssignmentEvents
  cases n.field? .left with
  | none => exact follows_lowerGeneric hlower (by simp) n
  | some left =>
      dsimp only [Option.elim]
      split
      · exact follows_lowerLocalAssignment hlower left n
      · exact follows_lowerDeclaring hlower (some left) n

/-! ## Texts and other constructs -/

theorem lowersAlong_lowerPart (hlower : LowersAlong lower below) :
    LowersAlong (lowerPart s lower) (partEvents below) := by
  intro n
  unfold lowerPart partEvents
  split
  · exact hlower n
  · exact .pure (by simp [localVars_eq])

theorem follows_lowerText (hlower : LowersAlong lower below) {plain dynamic : Kind}
    (hplain : plain ≠ .localVar) (hdynamic : dynamic ≠ .localVar) (n : Concrete.Node) :
    Follows (lowerText s lower plain dynamic n) (n.namedChildren.flatMap (partEvents below)) []
      localVars := by
  unfold lowerText
  split
  · refine (follows_lowerAll (lowersAlong_lowerPart hlower) n.namedChildren).last ?_
    intro parts
    exact .pure (by simp [localVars_eq hdynamic])
  · rename_i hplainText
    have hnone : n.namedChildren.flatMap (partEvents below) = [] := by
      simpa [partEvents, List.flatMap_eq_nil_iff] using fun part hpart hkind =>
        absurd (List.any_eq_true.2 ⟨part, hpart, by simpa using hkind⟩) hplainText
    rw [hnone]
    exact .pure (by simp [localVars_eq hplain])

theorem follows_lowerPair (hlower : LowersAlong lower below) (n : Concrete.Node) :
    Follows (lowerPair s lower n) (fieldEvents below n .key ++ fieldEvents below n .value) []
      localVars := by
  refine (follows_lowerField hlower n .key).bind ?_
  intro key
  refine (follows_lowerField hlower n .value).last ?_
  intro value
  exact .pure (by simp [localVars_eq])

theorem follows_lowerRange (hlower : LowersAlong lower below) (n : Concrete.Node) :
    Follows (lowerRange s lower n) (fieldEvents below n .first ++ fieldEvents below n .last) []
      localVars := by
  refine (follows_lowerField hlower n .first).bind ?_
  intro first
  refine (follows_lowerField hlower n .last).last ?_
  intro last
  refine .pure ?_
  rw [localVars_eq (by grind)]
  simp

theorem follows_lowerReturned (hlower : LowersAlong lower below) (nodes : List Concrete.Node) :
    Follows (lowerReturned s lower nodes) (nodes.flatMap (returnedEvents below)) []
      localVarsAll := by
  induction nodes with
  | nil => exact .pure rfl
  | cons n rest ih =>
      -- what both sorts of arguments end with
      have hrest : ∀ values, Follows
          (do let terms ← lowerReturned s lower rest; pure (values ++ terms))
          (rest.flatMap (returnedEvents below)) (localVarsAll values) localVarsAll := by
        intro values
        refine ih.last ?_
        intro terms
        exact .pure (by simp)
      rw [List.flatMap_cons]
      unfold lowerReturned returnedEvents
      dsimp only
      split
      · exact (follows_lowerArguments hlower n).bind hrest
      · refine (hlower n).bind ?_
        intro term
        exact hrest term.toList

theorem follows_lowerReturn (hlower : LowersAlong lower below) (n : Concrete.Node) :
    Follows (lowerReturn s lower n) (n.namedChildren.flatMap (returnedEvents below)) []
      localVars := by
  refine (follows_lowerReturned hlower n.namedChildren).last ?_
  intro terms
  exact .pure (by simp [localVars_eq])

/-! ## Programs -/

theorem follows_lowerConstruct (hlower : LowersAlong lower below) (n : Concrete.Node) :
    Follows (lowerConstruct s lower n) (constructEvents s below n) [] localVars := by
  unfold lowerConstruct constructEvents
  cases n.kind with
  | classNode => exact follows_lowerClass hlower n
  | moduleNode => exact follows_lowerModule hlower n
  | singletonClass => exact follows_lowerSingletonClass hlower n
  | method => exact follows_lowerMethod hlower n
  | singletonMethod => exact follows_lowerSingletonMethod hlower n
  | call => exact follows_lowerCall hlower n
  | block => exact follows_lowerBlock hlower n n none
  | doBlock => exact follows_lowerBlock hlower n n none
  | lambda => exact (follows_lowerGeneric hlower (by simp) n).within true
  | identifier => exact follows_lowerIdentifier n
  | scopeResolution => exact follows_lowerScopeResolution hlower n
  | assignment => exact follows_lowerAssignment hlower n
  | operatorAssignment => exact follows_lowerOperatorAssignment hlower n
  | string => exact follows_lowerText hlower (by simp) (by simp) n
  | bareString => exact follows_lowerText hlower (by simp) (by simp) n
  | subshell => exact follows_lowerText hlower (by simp) (by simp) n
  | delimitedSymbol => exact follows_lowerText hlower (by simp) (by simp) n
  | bareSymbol => exact follows_lowerText hlower (by simp) (by simp) n
  | pair => exact follows_lowerPair hlower n
  | range => exact follows_lowerRange hlower n
  | returnNode => exact follows_lowerReturn hlower n
  | binary => exact follows_lowerBinary hlower n
  | unary => exact follows_lowerUnary hlower n
  | elementReference => exact follows_lowerElementReference hlower n
  | exceptionVariable => exact follows_lowerDeclaring hlower (some n) n
  | forNode => exact follows_lowerDeclaring hlower (n.field? .pattern) n
  | _ =>
      -- literals and the like, in which nothing happens, and constructs without a rule of their own
      first
        | exact follows_lowerGeneric hlower (by simp) n
        | exact .pure (by simp [localVars_eq])

theorem lowersAlong_lowerNode (hlower : LowersAlong lower below) :
    LowersAlong (lowerNode s lower) (nodeEvents s below) := by
  intro n
  have hconstruct := follows_some (follows_lowerConstruct (s := s) hlower n)
  unfold lowerNode nodeEvents
  cases n.kind with
  | comment => exact .pure rfl
  | heredocBody => exact .pure rfl
  | emptyStatement => exact .pure rfl
  | _ => exact hconstruct

theorem lowersAlong_lowerWithin (s : Source) (depth : Nat) :
    LowersAlong (lowerWithin s depth) (trace s depth) := by
  induction depth with
  | zero =>
      intro n
      exact .pure (by simp [localVars_eq])
  | succ depth ih => exact lowersAlong_lowerNode ih

/-! ## Names on their own -/

/-- A name on its own is looked up in the frames. -/
theorem kind_lowerIdentifier (n : Concrete.Node) (scopes : Scopes) :
    ((lowerIdentifier s n : Lowering Term).run scopes).run.1.kind = .localVar ↔
      scopes.isLocal (s.text n) = true := by
  rw [run_lowerIdentifier]
  cases scopes.isLocal (s.text n)
  · simp [written]
  · simp [localVar]

end Lowering
end RubyIndex
