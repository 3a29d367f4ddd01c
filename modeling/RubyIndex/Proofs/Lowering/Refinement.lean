import RubyIndex.Proofs.Lowering.Placed

/-!
# Lowering builds the tree of a term

Every rule, run on indices, refines the same rule run on terms: each node it builds or has lowered
is taken up once, in order, and no index is out of range.  So lowering succeeds from any state, and
what it adds is the layout of one term.

* `refines_lowerConstruct`, one lemma for each rule up to all of them;
* `lowersAlike_lower`, the lowering of a node at any depth, and `lower_eq`, the equation it satisfies;
* `treeOf?_eq`, the tree of a text.
-/

namespace RubyIndex
namespace Lowering

open Concrete (Source)
open Syntax (Kind Child Leaf Term)

/-- A lowering of nodes that refines another one at a depth. -/
def LowersAlike (depth : Nat) (lower : Lower Building Nat) (onTerms : Lower Lowering Term) : Prop :=
  ∀ n, Refines (Option Placed) depth [] (lower n) (onTerms n)

section Rules

variable {s : Source} {depth : Nat} {lower : Lower Building Nat} {onTerms : Lower Lowering Term}
  {known : List Placed}

/-! ## Nodes -/

section Add

variable {kind : Kind} {children : List (Child Nat)} {terms : List (Child Term)}
  {nodes : List Placed} {n : Concrete.Node}

theorem refines_add (h : Alike children terms nodes) (hknown : known = nodes) :
    Refines Placed depth known (add s kind children n) (add s kind terms n) := by
  subst hknown
  exact .node h

theorem refines_addDocumentable (h : Alike children terms nodes) (hknown : known = nodes) :
    Refines Placed depth known (addDocumentable s kind children n)
      (addDocumentable s kind terms n) := by
  subst hknown
  exact .node h

end Add

/-- A rule that always makes a node. -/
theorem refines_some {step : Building Nat} {onTerms : Lowering Term}
    (h : Refines Placed depth known step onTerms) :
    Refines (Option Placed) depth known (do let node ← step; pure (some node))
      (do let term ← onTerms; pure (some term)) := by
  refine h.last ?_
  intro node
  exact .pure (some node) rfl rfl rfl

/-! ## Nodes below -/

theorem refines_lowerAll (hlower : LowersAlike depth lower onTerms) (nodes : List Concrete.Node) :
    Refines (List Placed) depth [] (lowerAll lower nodes) (lowerAll onTerms nodes) := by
  induction nodes with
  | nil => exact .pure [] rfl rfl rfl
  | cons n rest ih =>
      refine (hlower n).bind ?_
      intro node
      refine ih.bind ?_
      intro nodes
      exact .pure (node.toList ++ nodes) (by simp) (by simp [Option.toList_map])
        (by simp [Option.toList_map])

theorem refines_lowerOption (hlower : LowersAlike depth lower onTerms)
    (node : Option Concrete.Node) :
    Refines (Option Placed) depth [] (lowerOption lower node) (lowerOption onTerms node) := by
  cases node with
  | none => exact .pure none rfl rfl rfl
  | some n => exact hlower n

theorem refines_lowerField (hlower : LowersAlike depth lower onTerms) (n : Concrete.Node)
    (role : Concrete.Field) :
    Refines (Option Placed) depth [] (lowerField lower n role) (lowerField onTerms n role) :=
  refines_lowerOption hlower (n.field? role)

theorem refines_lowerGeneric (hlower : LowersAlike depth lower onTerms) (kind : Kind)
    (n : Concrete.Node) :
    Refines Placed depth [] (lowerGeneric s lower kind n) (lowerGeneric s onTerms kind n) := by
  refine (refines_lowerAll hlower n.namedChildren).bind ?_
  intro nodes
  exact refines_add (.list nodes) rfl

/-! ## Statements -/

theorem observes_statementsRange {first last : Placed} (hfirst : first ∈ known)
    (hlast : last ∈ known) (owner : Concrete.Node) :
    Observes depth known (statementsRange s first.index last.index owner)
      (statementsRange s first.term last.term owner) := by
  refine (Observes.range? hfirst).bind ?_
  intro a
  refine (Observes.range? hlast).bind ?_
  intro b
  cases a <;> cases b <;> exact .pure _

theorem refines_joinStatements (owner : Concrete.Node) (nodes : List Placed) :
    Refines (Option Placed) depth nodes (joinStatements s owner (nodes.map (·.index)))
      (joinStatements s owner (nodes.map (·.term))) := by
  match nodes with
  | [] => exact .pure none rfl rfl rfl
  | [node] => exact .pure (some node) rfl rfl rfl
  | first :: second :: rest =>
      have hlast : (second :: rest).getLast (List.cons_ne_nil _ _) ∈ first :: second :: rest :=
        List.mem_cons_of_mem _ (List.getLast_mem _)
      have hfirst : first ∈ first :: second :: rest := List.mem_cons_self
      have hrange : Observes depth _ _ _ := observes_statementsRange (s := s) hfirst hlast owner
      have hindex := List.getLast_map (f := Placed.index) (l := second :: rest) (by simp)
      have hterm := List.getLast_map (f := Placed.term) (l := second :: rest) (by simp)
      rw [← hindex, ← hterm] at hrange
      refine .read hrange ?_
      intro range
      exact refines_some (.node (.list (first :: second :: rest)))

theorem refines_lowerStatements (hlower : LowersAlike depth lower onTerms)
    (statements : List Concrete.Node) (owner : Concrete.Node) :
    Refines (Option Placed) depth [] (lowerStatements s lower statements owner)
      (lowerStatements s onTerms statements owner) := by
  refine (refines_lowerAll hlower statements).bind ?_
  intro nodes
  exact refines_joinStatements owner nodes

/-! ## Parameters -/

theorem refines_declare (name : String) : Refines Unit depth [] (declare name) (declare name) :=
  .modify _

theorem refines_declareAll (names : List String) :
    Refines Unit depth [] (declareAll names) (declareAll names) :=
  .modify _

theorem refines_lowerDefaulted (hlower : LowersAlike depth lower onTerms) (n : Concrete.Node) :
    Refines Placed depth [] (lowerDefaulted s lower n) (lowerDefaulted s onTerms n) := by
  refine (refines_declare _).skip ?_
  refine (refines_lowerField hlower n .value).bind ?_
  intro default
  cases default with
  | none => exact refines_add (.leaf _ .nil) rfl
  | some default => exact refines_add (.leaf _ (.node default .nil)) rfl

theorem refines_lowerCollecting (kind : Kind) (n : Concrete.Node) :
    Refines Placed depth [] (lowerCollecting s kind n) (lowerCollecting s kind n) := by
  unfold lowerCollecting
  split
  · exact (refines_declare _).skip (refines_add (.leaf _ .nil) rfl)
  · exact refines_add (.leaf _ .nil) rfl

mutual

theorem refines_lowerParameter (hlower : LowersAlike depth lower onTerms) :
    ∀ n, Refines (Option Placed) depth [] (lowerParameter s lower n) (lowerParameter s onTerms n)
  | ⟨id, kind, named, start, stop, role, children⟩ => by
      unfold lowerParameter
      cases kind with
      | identifier =>
          refine (refines_declare _).skip ?_
          exact refines_some (refines_add (.leaf _ .nil) rfl)
      | optionalParameter => exact refines_some (refines_lowerDefaulted hlower _)
      | keywordParameter => exact refines_some (refines_lowerDefaulted hlower _)
      | splatParameter => exact refines_some (refines_lowerCollecting _ _)
      | hashSplatParameter => exact refines_some (refines_lowerCollecting _ _)
      | blockParameter => exact refines_some (refines_lowerCollecting _ _)
      | forwardParameter => exact refines_some (refines_add .nil rfl)
      | destructuredParameter =>
          refine (refines_lowerParameterList hlower children).bind ?_
          intro parts
          exact refines_some (refines_add (.list parts) rfl)
      | _ => exact .pure none rfl rfl rfl

theorem refines_lowerParameterList (hlower : LowersAlike depth lower onTerms) :
    ∀ nodes, Refines (List Placed) depth [] (lowerParameterList s lower nodes)
      (lowerParameterList s onTerms nodes)
  | [] => by
      unfold lowerParameterList
      exact .pure [] rfl rfl rfl
  | n :: rest => by
      unfold lowerParameterList
      split
      · refine (refines_lowerParameter hlower n).bind ?_
        intro node
        refine (refines_lowerParameterList hlower rest).bind ?_
        intro nodes
        exact .pure (node.toList ++ nodes) (by simp) (by simp [Option.toList_map])
          (by simp [Option.toList_map])
      · exact refines_lowerParameterList hlower rest

end

theorem refines_lowerParameters (hlower : LowersAlike depth lower onTerms)
    (node : Option Concrete.Node) :
    Refines Placed depth [] (lowerParameters s lower node) (lowerParameters s onTerms node) := by
  cases node with
  | none => exact .node .nil
  | some n =>
      refine (refines_lowerParameterList hlower n.children).bind ?_
      intro nodes
      exact refines_add (.list nodes) rfl

/-! ## Declarations -/

theorem refines_lowerBody (hlower : LowersAlike depth lower onTerms) (n : Concrete.Node)
    (header : List (Option Concrete.Node)) :
    Refines (Option Placed) depth [] (lowerBody s lower n header) (lowerBody s onTerms n header) :=
  (refines_lowerStatements hlower (n.bodyNodes header) n).within false

theorem refines_lowerClass (hlower : LowersAlike depth lower onTerms) (n : Concrete.Node) :
    Refines Placed depth [] (lowerClass s lower n) (lowerClass s onTerms n) := by
  refine (refines_lowerField hlower n .name).bind ?_
  intro name
  refine (refines_lowerOption hlower (superclassNode? n)).bind ?_
  intro superclass
  refine (refines_lowerBody hlower n _).bind ?_
  intro body
  exact refines_addDocumentable (.option name (.option superclass (.option body .nil))) (by simp)

theorem refines_lowerModule (hlower : LowersAlike depth lower onTerms) (n : Concrete.Node) :
    Refines Placed depth [] (lowerModule s lower n) (lowerModule s onTerms n) := by
  refine (refines_lowerField hlower n .name).bind ?_
  intro name
  refine (refines_lowerBody hlower n _).bind ?_
  intro body
  exact refines_addDocumentable (.option name (.option body .nil)) (by simp)

theorem refines_lowerSingletonClass (hlower : LowersAlike depth lower onTerms)
    (n : Concrete.Node) :
    Refines Placed depth [] (lowerSingletonClass s lower n) (lowerSingletonClass s onTerms n) := by
  refine (refines_lowerField hlower n .value).bind ?_
  intro object
  refine (refines_lowerBody hlower n _).bind ?_
  intro body
  exact refines_add (.option object (.option body .nil)) (by simp)

theorem refines_lowerCallable (hlower : LowersAlike depth lower onTerms) (seesOuter : Bool)
    (n : Concrete.Node) (header : List (Option Concrete.Node)) :
    Refines (Placed × Option Placed) depth [] (lowerCallable s lower seesOuter n header)
      (lowerCallable s onTerms seesOuter n header) := by
  refine Refines.within ?_ seesOuter
  refine (refines_lowerParameters hlower (n.field? .parameters)).bind ?_
  intro parameters
  refine (refines_lowerStatements hlower (n.bodyNodes header) n).bind ?_
  intro body
  exact .pure (parameters, body) rfl rfl rfl

theorem refines_lowerMethod (hlower : LowersAlike depth lower onTerms) (n : Concrete.Node) :
    Refines Placed depth [] (lowerMethod s lower n) (lowerMethod s onTerms n) := by
  refine (refines_lowerCallable hlower false n _).bind ?_
  rintro ⟨parameters, body⟩
  exact refines_addDocumentable (.leaf _ (.node parameters (.option body .nil))) (by simp)

theorem refines_lowerSingletonMethod (hlower : LowersAlike depth lower onTerms)
    (n : Concrete.Node) :
    Refines Placed depth [] (lowerSingletonMethod s lower n)
      (lowerSingletonMethod s onTerms n) := by
  refine (refines_lowerField hlower n .object).bind ?_
  intro object
  refine (refines_lowerCallable hlower false n _).bind ?_
  rintro ⟨parameters, body⟩
  exact refines_addDocumentable
    (.option object (.leaf _ (.node parameters (.option body .nil)))) (by simp)

/-! ## Calls -/

theorem refines_keywordHash (hlower : LowersAlike depth lower onTerms)
    (pairs : List Concrete.Node) :
    Refines (Option Placed) depth [] (keywordHash s lower pairs) (keywordHash s onTerms pairs) := by
  unfold keywordHash
  split
  · refine (refines_lowerAll hlower pairs).bind ?_
    intro nodes
    exact refines_some (.node (.list nodes))
  · exact .pure none rfl rfl rfl

theorem refines_lowerArgumentsAfter (hlower : LowersAlike depth lower onTerms)
    (nodes : List Concrete.Node) :
    ∀ pairs, Refines (List Placed) depth [] (lowerArgumentsAfter s lower pairs nodes)
      (lowerArgumentsAfter s onTerms pairs nodes) := by
  induction nodes with
  | nil =>
      intro pairs
      refine (refines_keywordHash hlower pairs).bind ?_
      intro hash
      exact .pure hash.toList rfl (by simp [Option.toList_map]) (by simp [Option.toList_map])
  | cons n rest ih =>
      intro pairs
      unfold lowerArgumentsAfter
      split
      · exact ih (pairs ++ [n])
      · refine (refines_keywordHash hlower pairs).bind ?_
        intro hash
        refine (hlower n).bind ?_
        intro node
        refine (ih []).bind ?_
        intro nodes
        exact .pure (hash.toList ++ node.toList ++ nodes) (by simp)
          (by simp [Option.toList_map]) (by simp [Option.toList_map])

theorem refines_lowerArguments (hlower : LowersAlike depth lower onTerms) (list : Concrete.Node) :
    Refines (List Placed) depth [] (lowerArguments s lower list) (lowerArguments s onTerms list) :=
  refines_lowerArgumentsAfter hlower list.namedChildren []

theorem refines_lowerBlock (hlower : LowersAlike depth lower onTerms) (block outer : Concrete.Node)
    (call : Option Placed) :
    Refines Placed depth call.toList (lowerBlock s lower block (call.map (·.index)) outer)
      (lowerBlock s onTerms block (call.map (·.term)) outer) := by
  refine (refines_lowerCallable hlower true block _).bind ?_
  rintro ⟨parameters, body⟩
  exact refines_add (.option call (.node parameters (.option body .nil))) (by simp)

/-- A call with its parts, and then its block if it has one. -/
theorem refines_call_or_block (hlower : LowersAlike depth lower onTerms) (n : Concrete.Node)
    (kind : Kind) {children : List (Child Nat)} {terms : List (Child Term)} {nodes : List Placed}
    (h : Alike children terms nodes) :
    Refines Placed depth nodes
      (match n.field? .block with
        | none => addDocumentable s kind children n
        | some block => do
            let call ← Builder.node kind children (some (callRange s n)) (some (s.startRow n))
            lowerBlock s lower block (some call) n)
      (match n.field? .block with
        | none => addDocumentable s kind terms n
        | some block => do
            let call ← Builder.node kind terms (some (callRange s n)) (some (s.startRow n))
            lowerBlock s onTerms block (some call) n) := by
  cases n.field? .block with
  | none => exact refines_addDocumentable h rfl
  | some block =>
      refine (Refines.node h).last ?_
      intro call
      exact refines_lowerBlock hlower block n (some call)

theorem refines_lowerCall (hlower : LowersAlike depth lower onTerms) (n : Concrete.Node) :
    Refines Placed depth [] (lowerCall s lower n) (lowerCall s onTerms n) := by
  refine (refines_lowerField hlower n .receiver).bind ?_
  intro receiver
  dsimp only
  have hchildren (arguments : List Placed) :=
    Alike.option receiver
      (.leaf (.symbol ((n.field? .method).elim "call" s.text)) (.list arguments))
  split
  · refine (refines_lowerArguments hlower _).bind ?_
    intro arguments
    exact refines_call_or_block hlower n _ (hchildren arguments)
  · have hnone := refines_call_or_block (s := s) hlower n
      (if n.hasChild .safeNavigation then .safeSend else .send) (hchildren [])
    rw [List.append_nil] at hnone
    exact hnone

theorem refines_lowerIdentifier (n : Concrete.Node) :
    Refines Placed depth [] (lowerIdentifier s n) (lowerIdentifier s n) := by
  refine .read Observes.get ?_
  intro scopes
  split
  · exact refines_add (.leaf _ .nil) rfl
  · exact refines_add (.leaf _ (.leaf _ .nil)) rfl

/-! ## Operators -/

theorem refines_lowerBinary (hlower : LowersAlike depth lower onTerms) (n : Concrete.Node) :
    Refines Placed depth [] (lowerBinary s lower n) (lowerBinary s onTerms n) := by
  unfold lowerBinary
  split
  · refine (hlower _).bind ?_
    intro a
    refine (hlower _).bind ?_
    intro b
    dsimp only
    split
    · exact refines_add (.option a (.option b .nil)) (by simp)
    · exact refines_add (.option a (.leaf _ (.option b .nil))) (by simp)
  · exact refines_lowerGeneric hlower .other n

theorem refines_lowerUnary (hlower : LowersAlike depth lower onTerms) (n : Concrete.Node) :
    Refines Placed depth [] (lowerUnary s lower n) (lowerUnary s onTerms n) := by
  unfold lowerUnary
  split
  · refine (hlower _).bind ?_
    intro node
    exact refines_add (.option node (.leaf _ .nil)) (by simp)
  · exact refines_lowerGeneric hlower .other n

theorem refines_lowerElement (hlower : LowersAlike depth lower onTerms) (n : Concrete.Node) :
    Refines (Option Placed × List Placed) depth [] (lowerElement lower n)
      (lowerElement onTerms n) := by
  refine (refines_lowerField hlower n .object).bind ?_
  intro object
  refine (refines_lowerAll hlower _).bind ?_
  intro indices
  exact .pure (object, indices) rfl rfl rfl

theorem refines_lowerElementReference (hlower : LowersAlike depth lower onTerms)
    (n : Concrete.Node) :
    Refines Placed depth [] (lowerElementReference s lower n)
      (lowerElementReference s onTerms n) := by
  refine (refines_lowerElement hlower n).bind ?_
  rintro ⟨object, indices⟩
  exact refines_add (.option object (.leaf _ (.list indices))) rfl

/-! ## Constants and assignments -/

theorem refines_lowerScope (hlower : LowersAlike depth lower onTerms) (n : Concrete.Node) :
    Refines (Option Placed) depth [] (lowerScope lower n) (lowerScope onTerms n) := by
  unfold lowerScope
  cases n.field? .scope with
  | none => exact refines_some (.node .nil)
  | some scope => exact hlower scope

theorem refines_lowerScopeResolution (hlower : LowersAlike depth lower onTerms)
    (n : Concrete.Node) :
    Refines Placed depth [] (lowerScopeResolution s lower n)
      (lowerScopeResolution s onTerms n) := by
  refine (refines_lowerScope hlower n).bind ?_
  intro scope
  exact refines_add (.option scope (.leaf _ .nil)) (by simp)

theorem refines_lowerValue (hlower : LowersAlike depth lower onTerms)
    (node : Option Concrete.Node) :
    Refines (Option Placed) depth [] (lowerValue s lower node) (lowerValue s onTerms node) := by
  cases node with
  | none => exact .pure none rfl rfl rfl
  | some n =>
      unfold lowerValue
      dsimp only
      split
      · exact refines_some (refines_lowerGeneric hlower .array n)
      · exact hlower n

theorem refines_lowerLocalAssignment (hlower : LowersAlike depth lower onTerms)
    (left n : Concrete.Node) :
    Refines Placed depth [] (lowerLocalAssignment s lower left n)
      (lowerLocalAssignment s onTerms left n) := by
  refine (refines_declare _).skip ?_
  refine (refines_lowerValue hlower (n.field? .right)).bind ?_
  intro value
  exact refines_add (.leaf _ (.option value .nil)) (by simp)

theorem refines_lowerVariableAssignment (hlower : LowersAlike depth lower onTerms) (kind : Kind)
    (left n : Concrete.Node) :
    Refines Placed depth [] (lowerVariableAssignment s lower kind left n)
      (lowerVariableAssignment s onTerms kind left n) := by
  refine (refines_lowerValue hlower (n.field? .right)).bind ?_
  intro value
  exact refines_add (.leaf _ (.option value .nil)) (by simp)

theorem refines_lowerAssignmentTo (hlower : LowersAlike depth lower onTerms)
    (left n : Concrete.Node) :
    Refines Placed depth [] (lowerAssignmentTo s lower left n)
      (lowerAssignmentTo s onTerms left n) := by
  -- Whatever is assigned to, the value is lowered in the same way.
  have hright := refines_lowerValue (s := s) hlower (n.field? .right)
  unfold lowerAssignmentTo
  cases left.kind with
  | identifier => exact refines_lowerLocalAssignment hlower left n
  | instanceVariable => exact refines_lowerVariableAssignment hlower .instanceAssign left n
  | classVariable => exact refines_lowerVariableAssignment hlower .classAssign left n
  | globalVariable => exact refines_lowerVariableAssignment hlower .globalAssign left n
  | constant =>
      refine hright.bind ?_
      intro value
      exact refines_addDocumentable (.leaf _ (.leaf _ (.option value .nil))) (by simp)
  | scopeResolution =>
      refine (refines_lowerScope hlower left).bind ?_
      intro scope
      refine hright.bind ?_
      intro value
      exact refines_addDocumentable (.option scope (.leaf _ (.option value .nil))) (by simp)
  | call =>
      refine (refines_lowerField hlower left .receiver).bind ?_
      intro receiver
      refine hright.bind ?_
      intro value
      exact refines_add (.option receiver (.leaf _ (.option value .nil))) (by simp)
  | elementReference =>
      refine (refines_lowerElement hlower left).bind ?_
      rintro ⟨object, indices⟩
      refine hright.bind ?_
      intro value
      exact refines_add
        (.append (.option object (.leaf _ (.list indices))) (.option value .nil)) (by simp)
  | _ =>
      refine (refines_declareAll _).skip ?_
      refine (hlower left).bind ?_
      intro target
      refine hright.bind ?_
      intro value
      exact refines_add (.option target (.option value .nil)) (by simp)

theorem refines_lowerAssignment (hlower : LowersAlike depth lower onTerms) (n : Concrete.Node) :
    Refines Placed depth [] (lowerAssignment s lower n) (lowerAssignment s onTerms n) := by
  unfold lowerAssignment
  cases n.field? .left with
  | none => exact refines_lowerGeneric hlower .other n
  | some left => exact refines_lowerAssignmentTo hlower left n

theorem refines_lowerOperatorAssignment (hlower : LowersAlike depth lower onTerms)
    (n : Concrete.Node) :
    Refines Placed depth [] (lowerOperatorAssignment s lower n)
      (lowerOperatorAssignment s onTerms n) := by
  unfold lowerOperatorAssignment
  cases n.field? .left with
  | none => exact refines_lowerGeneric hlower .other n
  | some left =>
      dsimp only
      split
      · exact refines_lowerLocalAssignment hlower left n
      · exact (refines_declareAll _).skip (refines_lowerGeneric hlower .other n)

/-! ## Texts and other constructs -/

theorem lowersAlike_lowerPart (hlower : LowersAlike depth lower onTerms) :
    LowersAlike depth (lowerPart s lower) (lowerPart s onTerms) := by
  intro n
  unfold lowerPart
  split
  · exact hlower n
  · exact refines_some (refines_add (.leaf _ .nil) rfl)

theorem refines_lowerText (hlower : LowersAlike depth lower onTerms) (plain dynamic : Kind)
    (n : Concrete.Node) :
    Refines Placed depth [] (lowerText s lower plain dynamic n)
      (lowerText s onTerms plain dynamic n) := by
  unfold lowerText
  split
  · refine (refines_lowerAll (lowersAlike_lowerPart hlower) n.namedChildren).bind ?_
    intro parts
    exact refines_add (.list parts) rfl
  · exact refines_add (.leaf _ .nil) rfl

theorem refines_lowerPair (hlower : LowersAlike depth lower onTerms) (n : Concrete.Node) :
    Refines Placed depth [] (lowerPair s lower n) (lowerPair s onTerms n) := by
  refine (refines_lowerField hlower n .key).bind ?_
  intro key
  refine (refines_lowerField hlower n .value).bind ?_
  intro value
  exact refines_add (.option key (.option value .nil)) (by simp)

theorem refines_lowerRange (hlower : LowersAlike depth lower onTerms) (n : Concrete.Node) :
    Refines Placed depth [] (lowerRange s lower n) (lowerRange s onTerms n) := by
  refine (refines_lowerField hlower n .first).bind ?_
  intro first
  refine (refines_lowerField hlower n .last).bind ?_
  intro last
  exact refines_add (.option first (.option last .nil)) (by simp)

theorem refines_lowerReturned (hlower : LowersAlike depth lower onTerms)
    (nodes : List Concrete.Node) :
    Refines (List Placed) depth [] (lowerReturned s lower nodes)
      (lowerReturned s onTerms nodes) := by
  induction nodes with
  | nil => exact .pure [] rfl rfl rfl
  | cons n rest ih =>
      -- what both sorts of arguments end with
      have hrest : ∀ values : List Placed, Refines (List Placed) depth values
          (do
            let nodes ← lowerReturned s lower rest
            pure (values.map (·.index) ++ nodes))
          (do
            let terms ← lowerReturned s onTerms rest
            pure (values.map (·.term) ++ terms)) := by
        intro values
        refine ih.bind ?_
        intro nodes
        exact .pure (values ++ nodes) rfl (by simp) (by simp)
      unfold lowerReturned
      dsimp only
      split
      · exact (refines_lowerArguments hlower n).bind hrest
      · refine (hlower n).bind ?_
        intro node
        have hone := hrest node.toList
        rw [← Option.toList_map, ← Option.toList_map] at hone
        exact hone

theorem refines_lowerReturn (hlower : LowersAlike depth lower onTerms) (n : Concrete.Node) :
    Refines Placed depth [] (lowerReturn s lower n) (lowerReturn s onTerms n) := by
  refine (refines_lowerReturned hlower n.namedChildren).bind ?_
  intro nodes
  exact refines_add (.list nodes) rfl

theorem refines_lowerDeclaring (hlower : LowersAlike depth lower onTerms)
    (target : Option Concrete.Node) (n : Concrete.Node) :
    Refines Placed depth [] (lowerDeclaring s lower target n)
      (lowerDeclaring s onTerms target n) :=
  (refines_declareAll _).skip (refines_lowerGeneric hlower .other n)

/-! ## Programs -/

theorem refines_lowerConstruct (hlower : LowersAlike depth lower onTerms) (n : Concrete.Node) :
    Refines Placed depth [] (lowerConstruct s lower n) (lowerConstruct s onTerms n) := by
  unfold lowerConstruct
  cases n.kind with
  | classNode => exact refines_lowerClass hlower n
  | moduleNode => exact refines_lowerModule hlower n
  | singletonClass => exact refines_lowerSingletonClass hlower n
  | method => exact refines_lowerMethod hlower n
  | singletonMethod => exact refines_lowerSingletonMethod hlower n
  | call => exact refines_lowerCall hlower n
  | block => exact refines_lowerBlock hlower n n none
  | doBlock => exact refines_lowerBlock hlower n n none
  | lambda => exact (refines_lowerGeneric hlower .other n).within true
  | identifier => exact refines_lowerIdentifier n
  | constant => exact refines_add (.leaf _ (.leaf _ .nil)) rfl
  | scopeResolution => exact refines_lowerScopeResolution hlower n
  | assignment => exact refines_lowerAssignment hlower n
  | operatorAssignment => exact refines_lowerOperatorAssignment hlower n
  | string => exact refines_lowerText hlower _ _ n
  | bareString => exact refines_lowerText hlower _ _ n
  | subshell => exact refines_lowerText hlower _ _ n
  | delimitedSymbol => exact refines_lowerText hlower _ _ n
  | bareSymbol => exact refines_lowerText hlower _ _ n
  | pair => exact refines_lowerPair hlower n
  | range => exact refines_lowerRange hlower n
  | returnNode => exact refines_lowerReturn hlower n
  | binary => exact refines_lowerBinary hlower n
  | unary => exact refines_lowerUnary hlower n
  | elementReference => exact refines_lowerElementReference hlower n
  | exceptionVariable => exact refines_lowerDeclaring hlower _ n
  | forNode => exact refines_lowerDeclaring hlower _ n
  | _ =>
      -- literals and the like, and constructs without a rule of their own
      first
        | exact refines_lowerGeneric hlower _ n
        | exact refines_add (.leaf _ .nil) rfl
        | exact refines_add .nil rfl

theorem lowersAlike_lowerNode (hlower : LowersAlike depth lower onTerms) :
    LowersAlike depth (lowerNode s lower) (lowerNode s onTerms) := by
  intro n
  have hconstruct := refines_some (refines_lowerConstruct (s := s) hlower n)
  unfold lowerNode
  cases n.kind with
  | comment => exact .pure none rfl rfl rfl
  | heredocBody => exact .pure none rfl rfl rfl
  | emptyStatement => exact .pure none rfl rfl rfl
  | _ => exact hconstruct

theorem lowersAlike_cut (s : Source) (depth : Nat) : LowersAlike depth (cut s) (cut s) :=
  fun _ => refines_some (refines_add .nil rfl)

/-! ## Depth -/

/-- One level of lowering, over that of the next level. -/
theorem lowersAlike_lowerNested
    (hlower : LowersAlike (depth + 1) lower (lowerWithin s (maxDepth - (depth + 1)))) :
    LowersAlike depth (lowerNested s lower) (lowerWithin s (maxDepth - depth)) := by
  intro n
  refine .atDepth ?_
  intro p hdepth
  rw [hdepth]
  split
  · rename_i hdeep
    rw [Nat.sub_eq_zero_of_le hdeep]
    exact lowersAlike_cut s depth n
  · rename_i hflat
    have hsub : maxDepth - depth = maxDepth - (depth + 1) + 1 := by omega
    rw [hsub]
    exact (lowersAlike_lowerNode hlower n).nested

end Rules

/-- With a call for each level that is left, lowering goes as deep as it may. -/
theorem lowersAlike_lowerCalling (s : Source) (calls : Nat) :
    ∀ {depth}, maxDepth ≤ depth + calls →
      LowersAlike depth (lowerCalling s calls) (lowerWithin s (maxDepth - depth)) := by
  induction calls with
  | zero =>
      intro depth hdepth
      have hzero : maxDepth - depth = 0 := Nat.sub_eq_zero_of_le hdepth
      rw [hzero]
      exact lowersAlike_cut s depth
  | succ calls ih =>
      intro depth hdepth
      exact lowersAlike_lowerNested (ih (by omega))

/-- Lowering a node at any depth, with indices and with terms. -/
theorem lowersAlike_lower (s : Source) (depth : Nat) :
    LowersAlike depth (lower s) (lowerWithin s (maxDepth - depth)) :=
  lowersAlike_lowerCalling s maxDepth (Nat.le_add_left _ _)

/-- The number of calls does not matter: lowering is one level over itself. -/
theorem lower_eq (s : Source) : lower s = lowerNested s (lower s) := by
  funext n p
  have hnested := lowersAlike_lowerNested (lowersAlike_lower s (p.depth + 1)) n
  exact (lowersAlike_lower s p.depth n).run_eq hnested rfl

/-! ## Texts -/

/-- Lowering a text adds the layout of its term to an empty forest, and ends at its root. -/
theorem run_lowerRoot (s : Source) (root : Concrete.Node) :
    ∃ index scopes, Progress.initial.indices [lowerProgram s root] = [index] ∧
      (lowerRoot s (lower s) root).run .initial =
        some (index, Progress.initial.after [lowerProgram s root] scopes) := by
  have hroot : Refines Placed 0 [] (lowerRoot s (lower s) root)
      (lowerRoot s (lowerWithin s maxDepth) root) :=
    refines_lowerGeneric (lowersAlike_lower s 0) .sequence root
  obtain ⟨⟨index, term⟩, hplaces, hterm, hrun⟩ := hroot .initial .initial rfl Progress.places_nil
  obtain rfl : lowerProgram s root = term := hterm
  exact ⟨index, _, hplaces.symm, hrun⟩

/-- Lowering a text succeeds, and yields the tree of its term. -/
theorem treeOf?_eq (s : Source) (root : Concrete.Node) :
    treeOf? s root = some ((lowerProgram s root).toTree, (lowerProgram s root).documented) := by
  obtain ⟨index, scopes, hindex, hrun⟩ := run_lowerRoot s root
  rw [Progress.indices_singleton, Term.roots_place] at hindex
  rw [Progress.after_singleton] at hrun
  obtain rfl := List.singleton_inj.1 hindex
  have hroot : (Term.place .empty (lowerProgram s root)).forest.rootedAt?
      ((Term.place .empty (lowerProgram s root)).forest.size - 1) =
        some (lowerProgram s root).toTree :=
    dif_pos (lowerProgram s root).toTree.root_lt
  have hdocumented : (#[] ++ (lowerProgram s root).documented.toArray).toList =
      (lowerProgram s root).documented := by simp
  calc treeOf? s root
      = ((Term.place .empty (lowerProgram s root)).forest.rootedAt?
            ((Term.place .empty (lowerProgram s root)).forest.size - 1)).bind fun tree =>
          some (tree, (#[] ++ (lowerProgram s root).documented.toArray).toList) := by
        rw [treeOf?, hrun]
        rfl
    _ = _ := by rw [hroot, hdocumented, Option.bind_some]

end Lowering

namespace Parsed

open Concrete (Source)
open Syntax (Tree)

theorem tree_ofSource (s : Source) (root : Concrete.Node) :
    (ofSource s root).tree = (Lowering.lowerProgram s root).toTree := by
  rw [ofSource, Lowering.treeOf?_eq]
  rfl

theorem comments_ofSource (s : Source) (root : Concrete.Node) :
    (ofSource s root).comments =
      Concrete.associate (Concrete.lineOn (Concrete.commentLines s root))
        (Lowering.lowerProgram s root).documented := by
  rw [ofSource, Lowering.treeOf?_eq]
  rfl

theorem built_ofSource (s : Source) (root : Concrete.Node) : (ofSource s root).tree.Built := by
  rw [tree_ofSource]
  exact Syntax.Term.built_toTree _

theorem linked_ofSource (s : Source) (root : Concrete.Node) : (ofSource s root).tree.Linked :=
  Syntax.Forest.linked_of_built (built_ofSource s root)

/-- Lowering a text succeeds, so no step uses an index that is out of range or gives a node a second
parent.  In the tree it yields the root comes last and alone lacks a parent, every other node stands
once below its parent and nowhere else, and the walk from the root comes to each node once. -/
theorem tree_whole (s : Source) (root : Concrete.Node) :
    ∃ t documented, Lowering.treeOf? s root = some (t, documented) ∧ (ofSource s root).tree = t ∧
      t.Built ∧
      t.root + 1 = t.size ∧ t.parent? t.root = none ∧
      (∀ i, i < t.size → i ≠ t.root →
        ∃ p, t.parent? i = some p ∧ i < p ∧ p < t.size ∧
          ∀ q, (t.children q).count (.node i) = if q = p then 1 else 0) ∧
      (t.root :: t.descendantsOf [] t.root).Perm (List.range t.size) ∧
      t.size = (t.root :: t.descendantsOf [] t.root).length := by
  let term := Lowering.lowerProgram s root
  let t := term.toTree
  have hlinked : t.Linked := term.linked_toTree
  have hroot : ∀ {i : Nat}, i < t.size → (t.parent? i = none ↔ i = t.root) :=
    term.parent?_toTree_eq_none_iff
  have hperm : (t.root :: t.descendantsOf [] t.root).Perm (List.range t.size) := by
    rw [Tree.descendantsOf_nil, Tree.cons_descendants]
    exact Tree.preorder_root_perm hlinked fun i hi => (hroot hi).1
  refine ⟨t, term.documented, Lowering.treeOf?_eq s root, tree_ofSource s root, term.built_toTree,
    ?_, (hroot t.root_lt).2 rfl, ?_, hperm, ?_⟩
  · exact Nat.sub_add_cancel (Syntax.Term.size_place_pos .empty term)
  · intro i hi hne
    cases hparent : t.parent? i with
    | none => exact absurd ((hroot hi).1 hparent) hne
    | some p =>
        have hgt := Tree.parent?_gt hparent
        refine ⟨p, rfl, hgt.1, hgt.2, ?_⟩
        intro q
        rw [Tree.count_children hlinked, hparent]
        simp [eq_comm]
  · simpa using hperm.length_eq.symm

end Parsed
end RubyIndex
