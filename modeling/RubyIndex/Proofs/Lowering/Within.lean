import RubyIndex.Proofs.Lowering.Standing

/-!
# Lowered terms lie within each other

Every rule of lowering makes a term that stands on its node, if the terms of the nodes below do.

* `LowersStanding`, a lowering that does so;
* `yields_lowerConstruct_stands`, the rule for each construct keeps to it;
* `within_lowerProgram`, so the terms of a whole text lie within each other.
-/

namespace RubyIndex
namespace Lowering

open Concrete (Source Field)
open Syntax (Kind Child Leaf Term WithinAll)

/-- A lowering that turns nodes into terms that stand on them. -/
def LowersStanding (s : Source) (lower : Lower Lowering Term) : Prop :=
  ∀ n, n.Standing s → Yields (lower n) fun term => ∀ t ∈ term, Stands s n t

variable {s : Source} {lower : Lower Lowering Term} {n : Concrete.Node} {nodes : List Concrete.Node}
  {region : Range}

/-! ## Nodes below -/

theorem yields_lowerAll_stands (hlower : LowersStanding s lower)
    (hnodes : ∀ c ∈ nodes, c.Standing s) :
    Yields (lowerAll lower nodes) (StandsAlong s nodes) := by
  induction nodes with
  | nil => exact .pure .nil
  | cons n rest ih =>
      refine (hlower n (hnodes n List.mem_cons_self)).bind ?_
      intro term hterm
      refine (ih fun c hc => hnodes c (List.mem_cons_of_mem _ hc)).bind ?_
      intro terms hterms
      exact .pure (hterms.cons hterm)

/-- The terms of nodes in a region. -/
theorem yields_lowerAll_withinAll (hlower : LowersStanding s lower) (hrow : Row s region nodes) :
    Yields (lowerAll lower nodes) (WithinAll region) :=
  (yields_lowerAll_stands hlower hrow.standing).mono fun _ hterms =>
    hterms.withinAll hrow.inside

/-- The term of a child. -/
theorem LowersStanding.child (hlower : LowersStanding s lower) (hn : n.Standing s)
    {c : Concrete.Node} (hc : c ∈ n.children) :
    Yields (lower c) fun term => WithinAll (s.range n) term.toList :=
  (hlower c (hn.child hc)).mono fun _ hterm => withinAll_of_stands hterm (hn.contains_child hc)

/-- The term of a child with a role, in any region around that child. -/
theorem yields_lowerField_around (hlower : LowersStanding s lower) (hn : n.Standing s)
    {role : Field} (hregion : ∀ c ∈ n.field? role, region.contains (s.range c) = true) :
    Yields (lowerField lower n role) fun term => WithinAll region term.toList := by
  unfold lowerField lowerOption
  split
  · exact .pure (by simp)
  · rename_i c hc
    have hchild := hn.child (Concrete.Node.mem_children_of_field? hc)
    exact (hlower c hchild).mono fun _ hterm => withinAll_of_stands hterm (hregion c hc)

theorem yields_lowerField_stands (hlower : LowersStanding s lower) (hn : n.Standing s)
    (role : Field) :
    Yields (lowerField lower n role) fun term => WithinAll (s.range n) term.toList :=
  yields_lowerField_around hlower hn fun _ hc =>
    hn.contains_child (Concrete.Node.mem_children_of_field? hc)

theorem yields_lowerGeneric_stands (hlower : LowersStanding s lower) {kind : Kind}
    (hkind : kind ≠ .localVar) (hn : n.Standing s) :
    Yields (lowerGeneric s lower kind n) (Stands s n) := by
  refine (yields_lowerAll_withinAll hlower (Row.namedChildren hn)).bind ?_
  intro terms hterms
  exact .pure (stands_of_withinAll hkind (by simpa using hterms))

theorem yields_lowerStatements_stands (hlower : LowersStanding s lower)
    (hrow : Row s region nodes) (owner : Concrete.Node) :
    Yields (lowerStatements s lower nodes owner) fun term => WithinAll region term.toList := by
  rw [lowerStatements_eq]
  refine (yields_lowerAll_stands hlower hrow.standing).bind ?_
  intro terms hterms
  exact .pure (hterms.joined hrow owner)

/-- A rule that always makes a term. -/
theorem yields_some_stands {step : Lowering Term} (h : Yields step (Stands s n)) :
    Yields (do let term ← step; pure (some term)) fun term => ∀ t ∈ term, Stands s n t := by
  refine h.bind ?_
  intro term hterm
  exact .pure (by simpa using hterm)

/-! ## Parameters -/

theorem yields_lowerDefaulted_stands (hlower : LowersStanding s lower) (hn : n.Standing s) :
    Yields (lowerDefaulted s lower n) (Stands s n) := by
  refine .skip ?_
  intro _
  refine (yields_lowerField_stands hlower hn .value).bind ?_
  intro default hdefault
  refine .pure (stands_of_withinAll ?_ (by simpa using hdefault))
  split
  · decide
  · split <;> decide

theorem yields_lowerCollecting_stands {kind : Kind} (hkind : kind ≠ .localVar)
    (n : Concrete.Node) : Yields (lowerCollecting s kind n) (Stands s n) := by
  unfold lowerCollecting
  split
  · refine .skip ?_
    intro _
    exact .pure (stands_of_withinAll hkind (by simp))
  · exact .pure (stands_of_withinAll hkind (by simp))

mutual

theorem yields_lowerParameter_stands (hlower : LowersStanding s lower) :
    ∀ n : Concrete.Node, n.Standing s →
      Yields (lowerParameter s lower n) fun term => ∀ t ∈ term, Stands s n t
  | ⟨id, kind, named, start, stop, role, children⟩, hn => by
      unfold lowerParameter
      split
      · refine .skip ?_
        intro _
        exact yields_some_stands (.pure (stands_of_withinAll (by decide) (by simp)))
      · exact yields_some_stands (yields_lowerDefaulted_stands hlower hn)
      · exact yields_some_stands (yields_lowerDefaulted_stands hlower hn)
      · exact yields_some_stands (yields_lowerCollecting_stands (by decide) _)
      · exact yields_some_stands (yields_lowerCollecting_stands (by decide) _)
      · exact yields_some_stands (yields_lowerCollecting_stands (by decide) _)
      · exact yields_some_stands (.pure (stands_of_withinAll (by decide) (by simp)))
      · refine (yields_lowerParameterList_stands hlower children fun c hc => hn.child hc).bind ?_
        intro parts hparts
        have hwithin := hparts.withinAll (Row.children hn).inside
        exact yields_some_stands
          (.pure (stands_of_withinAll (by decide) (by simpa using hwithin)))
      · exact .pure (by simp)

theorem yields_lowerParameterList_stands (hlower : LowersStanding s lower) :
    ∀ nodes : List Concrete.Node, (∀ c ∈ nodes, c.Standing s) →
      Yields (lowerParameterList s lower nodes) (StandsAlong s nodes)
  | [], _ => by
      unfold lowerParameterList
      exact .pure .nil
  | n :: rest, hnodes => by
      have hrest := yields_lowerParameterList_stands hlower rest fun c hc =>
        hnodes c (List.mem_cons_of_mem _ hc)
      unfold lowerParameterList
      split
      · refine (yields_lowerParameter_stands hlower n (hnodes n List.mem_cons_self)).bind ?_
        intro term hterm
        refine hrest.bind ?_
        intro terms hterms
        exact .pure (hterms.cons hterm)
      · exact hrest.mono fun terms hterms => hterms.skip

end

/-- Parameters that were not written stand nowhere. -/
theorem yields_lowerParameters_stands (hlower : LowersStanding s lower) (hn : n.Standing s) :
    Yields (lowerParameters s lower (n.field? .parameters)) fun term =>
      term.Within (some (s.range n)) := by
  cases hc : n.field? .parameters with
  | none => exact .pure (Term.within_of_unlocated (by decide) rfl rfl)
  | some list =>
      have hchild := Concrete.Node.mem_children_of_field? hc
      have hlist := hn.child hchild
      refine (yields_lowerParameterList_stands hlower list.children fun c hc =>
        hlist.child hc).bind ?_
      intro terms hterms
      have hwithin := hterms.withinAll (Row.children hlist).inside
      exact .pure (Term.within_of_range (by decide) (by simpa using hwithin)
        (hn.contains_child hchild))

/-! ## Declarations -/

theorem yields_lowerBody_stands (hlower : LowersStanding s lower) (hn : n.Standing s)
    (header : List (Option Concrete.Node)) :
    Yields (lowerBody s lower n header) fun term => WithinAll (s.range n) term.toList :=
  (yields_lowerStatements_stands hlower (Row.bodyNodes hn header) n).within false

/-- The expression a class is derived from stands in the class. -/
theorem yields_superclass_stands (hlower : LowersStanding s lower) (hn : n.Standing s) :
    Yields (lowerOption lower (superclassNode? n)) fun term =>
      WithinAll (s.range n) term.toList := by
  unfold superclassNode?
  cases hc : n.field? .superclass with
  | none => exact .pure (by simp)
  | some c =>
      have hchild := Concrete.Node.mem_children_of_field? hc
      rw [Option.bind_some]
      split
      · -- behind `<` there is a node of its own, with the expression in it
        cases he : c.namedChildren.head? with
        | none => exact .pure (by simp)
        | some e =>
            have hmem := Concrete.Node.mem_children_of_namedChildren (List.mem_of_mem_head? he)
            exact (hlower.child (hn.child hchild) hmem).mono fun _ hterm =>
              hterm.widen (hn.contains_child hchild)
      · exact hlower.child hn hchild

theorem yields_lowerClass_stands (hlower : LowersStanding s lower) (hn : n.Standing s) :
    Yields (lowerClass s lower n) (Stands s n) := by
  refine (yields_lowerField_stands hlower hn .name).bind ?_
  intro name hname
  refine (yields_superclass_stands hlower hn).bind ?_
  intro superclass hsuperclass
  refine (yields_lowerBody_stands hlower hn _).bind ?_
  intro body hbody
  exact .pure (stands_of_withinAll (by decide) (by simp [hname, hsuperclass, hbody]))

theorem yields_lowerModule_stands (hlower : LowersStanding s lower) (hn : n.Standing s) :
    Yields (lowerModule s lower n) (Stands s n) := by
  refine (yields_lowerField_stands hlower hn .name).bind ?_
  intro name hname
  refine (yields_lowerBody_stands hlower hn _).bind ?_
  intro body hbody
  exact .pure (stands_of_withinAll (by decide) (by simp [hname, hbody]))

theorem yields_lowerSingletonClass_stands (hlower : LowersStanding s lower)
    (hn : n.Standing s) : Yields (lowerSingletonClass s lower n) (Stands s n) := by
  refine (yields_lowerField_stands hlower hn .value).bind ?_
  intro object hobject
  refine (yields_lowerBody_stands hlower hn _).bind ?_
  intro body hbody
  exact .pure (stands_of_withinAll (by decide) (by simp [hobject, hbody]))

theorem yields_lowerCallable_stands (hlower : LowersStanding s lower) (seesOuter : Bool)
    (hn : n.Standing s) (header : List (Option Concrete.Node)) :
    Yields (lowerCallable s lower seesOuter n header) fun parts =>
      parts.1.Within (some (s.range n)) ∧ WithinAll (s.range n) parts.2.toList := by
  refine Yields.within ?_ seesOuter
  refine (yields_lowerParameters_stands hlower hn).bind ?_
  intro parameters hparameters
  refine (yields_lowerStatements_stands hlower (Row.bodyNodes hn header) n).bind ?_
  intro body hbody
  exact .pure ⟨hparameters, hbody⟩

theorem yields_lowerMethod_stands (hlower : LowersStanding s lower) (hn : n.Standing s) :
    Yields (lowerMethod s lower n) (Stands s n) := by
  refine (yields_lowerCallable_stands hlower false hn _).bind ?_
  rintro ⟨parameters, body⟩ ⟨hparameters, hbody⟩
  exact .pure (stands_of_withinAll (by decide) (by simp [hparameters, hbody]))

theorem yields_lowerSingletonMethod_stands (hlower : LowersStanding s lower)
    (hn : n.Standing s) : Yields (lowerSingletonMethod s lower n) (Stands s n) := by
  refine (yields_lowerField_stands hlower hn .object).bind ?_
  intro object hobject
  refine (yields_lowerCallable_stands hlower false hn _).bind ?_
  rintro ⟨parameters, body⟩ ⟨hparameters, hbody⟩
  exact .pure (stands_of_withinAll (by decide) (by simp [hobject, hparameters, hbody]))

/-! ## Calls and blocks -/

/-- The hash of a run of pairs reaches from the first of them to the last. -/
theorem yields_keywordHash_stands (hlower : LowersStanding s lower) (hrow : Row s region nodes) :
    Yields (keywordHash s lower nodes) fun hash => WithinAll region hash.toList := by
  unfold keywordHash
  split
  · rename_i first last hfirst hlast
    obtain ⟨hparts, hinside⟩ := hrow.contains_between hfirst hlast
    refine (yields_lowerAll_stands hlower hrow.standing).bind ?_
    intro terms hterms
    have hwithin := hterms.withinAll hparts
    have hhash : Term.Within (some region) ⟨.hash, terms.map .node,
        some ⟨(s.range first).start, (s.range last).stop⟩, none⟩ :=
      Term.within_of_range (by decide) (by simpa using hwithin) hinside
    exact .pure (by simpa using hhash)
  · exact .pure (by simp)

theorem yields_lowerArgumentsAfter_stands (hlower : LowersStanding s lower)
    (nodes : List Concrete.Node) : ∀ pairs, Row s region (pairs ++ nodes) →
      Yields (lowerArgumentsAfter s lower pairs nodes) (WithinAll region) := by
  induction nodes with
  | nil =>
      intro pairs hrow
      rw [List.append_nil] at hrow
      refine (yields_keywordHash_stands hlower hrow).bind ?_
      intro hash hhash
      exact .pure hhash
  | cons n rest ih =>
      intro pairs hrow
      unfold lowerArgumentsAfter
      split
      · have hlonger := ih (pairs ++ [n])
        rw [List.append_assoc] at hlonger
        exact hlonger hrow
      · have hpairs := hrow.sublist (List.sublist_append_left pairs (n :: rest))
        have hrest := hrow.sublist (List.sublist_append_right pairs (n :: rest))
        refine (yields_keywordHash_stands hlower hpairs).bind ?_
        intro hash hhash
        refine (hlower n (hrest.standing n List.mem_cons_self)).bind ?_
        intro term hterm
        have hone := withinAll_of_stands hterm (hrest.inside n List.mem_cons_self)
        refine (ih [] (hrest.sublist (List.sublist_cons_self n rest))).bind ?_
        intro terms hterms
        exact .pure (by simp [hhash, hone, hterms])

theorem yields_lowerArguments_stands (hlower : LowersStanding s lower) (hn : n.Standing s) :
    Yields (lowerArguments s lower n) (WithinAll (s.range n)) :=
  yields_lowerArgumentsAfter_stands hlower n.namedChildren [] (Row.namedChildren hn)

/-- A block, in the construct it belongs to. -/
theorem yields_lowerBlock_stands (hlower : LowersStanding s lower) {block outer : Concrete.Node}
    (hblock : block.Standing s) (hinside : (s.range outer).contains (s.range block) = true)
    {call : Option Term} (hcall : WithinAll (s.range outer) call.toList) :
    Yields (lowerBlock s lower block call outer) (Stands s outer) := by
  refine (yields_lowerCallable_stands hlower true hblock _).bind ?_
  rintro ⟨parameters, body⟩ ⟨hparameters, hbody⟩
  refine .pure (stands_of_withinAll (by decide) ?_)
  simp [hcall, hparameters.widen hinside, hbody.widen hinside]

/-- The parts of a call with a block stand in the call. -/
theorem contains_callRange (hn : n.Standing s) :
    (s.range n).contains (callRange s n) = true ∧
      ∀ role ∈ [Field.receiver, .method, .arguments], ∀ part ∈ n.field? role,
        (callRange s n).contains (s.range part) = true := by
  have hinside : ∀ {role : Field}, ∀ part ∈ n.field? role,
      (s.range n).start ≤ (s.range part).start ∧ (s.range part).stop ≤ (s.range n).stop :=
    fun part hpart => hn.nests.inside part (Concrete.Node.mem_children_of_field? hpart)
  refine ⟨?_, ?_⟩
  · rw [Range.contains_iff, callRange_start]
    exact ⟨le_refl _, callRange_stop_le hn.nests.lo_le_hi fun _ _ part hpart =>
      (hinside part hpart).2⟩
  · intro role hrole part hpart
    rw [Range.contains_iff, callRange_start]
    exact ⟨(hinside part hpart).1, stop_le_callRange hrole hpart⟩

/-- A call of which the receiver and the arguments are known, with its block or without one. -/
theorem yields_call_or_block_stands (hlower : LowersStanding s lower) (hn : n.Standing s)
    {kind : Kind} (hkind : kind ≠ .localVar) {children : List (Child Term)}
    (hchildren : WithinAll (callRange s n) (Child.nodes children)) :
    Yields
      (match n.field? .block with
        | none => pure (documentable s kind children n)
        | some block =>
            lowerBlock s lower block
              (some ⟨kind, children, some (callRange s n), some (s.startRow n)⟩) n)
      (Stands s n) := by
  have hcall := (contains_callRange hn).1
  split
  · exact .pure (stands_of_withinAll hkind (hchildren.widen hcall))
  · rename_i block hblock
    have hchild := Concrete.Node.mem_children_of_field? hblock
    refine yields_lowerBlock_stands hlower (hn.child hchild) (hn.contains_child hchild) ?_
    simpa using Term.within_of_range hkind hchildren hcall

theorem yields_lowerCall_stands (hlower : LowersStanding s lower) (hn : n.Standing s) :
    Yields (lowerCall s lower n) (Stands s n) := by
  have hparts := (contains_callRange hn).2
  refine (yields_lowerField_around hlower hn (hparts .receiver (by decide))).bind ?_
  intro receiver hreceiver
  have hkind : (if n.hasChild .safeNavigation then Kind.safeSend else Kind.send) ≠ .localVar := by
    split <;> decide
  dsimp only
  split
  · rename_i list hlist
    have hchild := Concrete.Node.mem_children_of_field? hlist
    refine (yields_lowerArguments_stands hlower (hn.child hchild)).bind ?_
    intro arguments harguments
    have hwithin := harguments.widen (hparts .arguments (by decide) list hlist)
    exact yields_call_or_block_stands hlower hn hkind (by simp [hreceiver, hwithin])
  · exact yields_call_or_block_stands hlower hn hkind (by simp [hreceiver])

/-- The one rule that makes a local variable, on a name that is not empty. -/
theorem yields_lowerIdentifier_stands (hn : n.Standing s) (hkind : n.kind = .identifier) :
    Yields (lowerIdentifier s n) (Stands s n) := by
  refine .skip ?_
  intro scopes
  split
  · refine .pure ⟨rfl, .intro ?_ ?_ ?_⟩
    · rintro r hr
      cases hr
      exact ⟨_, rfl, Range.contains_refl _⟩
    · intro _
      exact ⟨s.range n, rfl, hn.filled hkind⟩
    · intro c hc
      simp [symbol] at hc
  · exact .pure (stands_of_withinAll (by decide) (by simp))

/-! ## Operators -/

theorem yields_lowerBinary_stands (hlower : LowersStanding s lower) (hn : n.Standing s) :
    Yields (lowerBinary s lower n) (Stands s n) := by
  unfold lowerBinary
  split
  · rename_i left operator right hleft _ hright
    refine (hlower.child hn (Concrete.Node.mem_children_of_field? hleft)).bind ?_
    intro a ha
    refine (hlower.child hn (Concrete.Node.mem_children_of_field? hright)).bind ?_
    intro b hb
    dsimp only
    split
    · exact .pure (stands_of_withinAll (by decide) (by simp [ha, hb]))
    · exact .pure (stands_of_withinAll (by decide) (by simp [ha, hb]))
  · exact yields_lowerGeneric_stands hlower (by decide) hn

theorem yields_lowerUnary_stands (hlower : LowersStanding s lower) (hn : n.Standing s) :
    Yields (lowerUnary s lower n) (Stands s n) := by
  unfold lowerUnary
  split
  · rename_i name operand _ hoperand
    refine (hlower.child hn (Concrete.Node.mem_children_of_field? hoperand)).bind ?_
    intro term hterm
    exact .pure (stands_of_withinAll (by decide) (by simp [hterm]))
  · exact yields_lowerGeneric_stands hlower (by decide) hn

theorem yields_lowerElement_stands (hlower : LowersStanding s lower) (hn : n.Standing s) :
    Yields (lowerElement lower n) fun parts =>
      WithinAll (s.range n) (parts.1.toList ++ parts.2) := by
  have hrow : Row s (s.range n) (n.namedChildrenExcept [n.field? .object]) :=
    (Row.namedChildren hn).sublist List.filter_sublist
  refine (yields_lowerField_stands hlower hn .object).bind ?_
  intro object hobject
  refine (yields_lowerAll_withinAll hlower hrow).bind ?_
  intro indices hindices
  exact .pure (by simp [hobject, hindices])

theorem yields_lowerElementReference_stands (hlower : LowersStanding s lower)
    (hn : n.Standing s) : Yields (lowerElementReference s lower n) (Stands s n) := by
  refine (yields_lowerElement_stands hlower hn).bind ?_
  rintro ⟨object, indices⟩ hparts
  exact .pure (stands_of_withinAll (by decide) (by simpa using hparts))

/-! ## Constants and assignments -/

theorem yields_lowerScope_stands (hlower : LowersStanding s lower) (hn : n.Standing s) :
    Yields (lowerScope lower n) fun term => WithinAll (s.range n) term.toList := by
  unfold lowerScope
  split
  · rename_i scope hscope
    exact hlower.child hn (Concrete.Node.mem_children_of_field? hscope)
  · -- the top level, which has no range
    exact .pure (by simpa using Term.within_of_unlocated (by decide) rfl rfl)

theorem yields_lowerScopeResolution_stands (hlower : LowersStanding s lower)
    (hn : n.Standing s) : Yields (lowerScopeResolution s lower n) (Stands s n) := by
  refine (yields_lowerScope_stands hlower hn).bind ?_
  intro scope hscope
  refine .pure (stands_of_withinAll ?_ (by simp [hscope]))
  split <;> decide

theorem yields_lowerValue_stands (hlower : LowersStanding s lower) (hn : n.Standing s) :
    Yields (lowerValue s lower (n.field? .right)) fun term =>
      WithinAll (s.range n) term.toList := by
  unfold lowerValue
  split
  · exact .pure (by simp)
  · rename_i value hvalue
    have hchild := Concrete.Node.mem_children_of_field? hvalue
    split
    · exact (yields_some_stands
        (yields_lowerGeneric_stands hlower (by decide) (hn.child hchild))).mono
          fun _ hterm => withinAll_of_stands hterm (hn.contains_child hchild)
    · exact hlower.child hn hchild

theorem yields_lowerLocalAssignment_stands (hlower : LowersStanding s lower)
    (hn : n.Standing s) (left : Concrete.Node) :
    Yields (lowerLocalAssignment s lower left n) (Stands s n) := by
  refine .skip ?_
  intro _
  refine (yields_lowerValue_stands hlower hn).bind ?_
  intro value hvalue
  exact .pure (stands_of_withinAll (by decide) (by simp [hvalue]))

theorem yields_lowerVariableAssignment_stands (hlower : LowersStanding s lower)
    (hn : n.Standing s) {kind : Kind} (hkind : kind ≠ .localVar) (left : Concrete.Node) :
    Yields (lowerVariableAssignment s lower kind left n) (Stands s n) := by
  refine (yields_lowerValue_stands hlower hn).bind ?_
  intro value hvalue
  exact .pure (stands_of_withinAll hkind (by simp [hvalue]))

theorem yields_lowerAssignmentTo_stands (hlower : LowersStanding s lower) (hn : n.Standing s)
    {left : Concrete.Node} (hleft : n.field? .left = some left) :
    Yields (lowerAssignmentTo s lower left n) (Stands s n) := by
  have hchild := Concrete.Node.mem_children_of_field? hleft
  have hbelow := hn.child hchild
  have hinside := hn.contains_child hchild
  -- whatever is assigned to, the value is lowered in the same way
  have hright := yields_lowerValue_stands hlower hn
  unfold lowerAssignmentTo
  split
  · exact yields_lowerLocalAssignment_stands hlower hn left
  · exact yields_lowerVariableAssignment_stands hlower hn (by decide) left
  · exact yields_lowerVariableAssignment_stands hlower hn (by decide) left
  · exact yields_lowerVariableAssignment_stands hlower hn (by decide) left
  · refine hright.bind ?_
    intro value hvalue
    exact .pure (stands_of_withinAll (by decide) (by simp [hvalue]))
  · refine (yields_lowerScope_stands hlower hbelow).bind ?_
    intro scope hscope
    refine hright.bind ?_
    intro value hvalue
    exact .pure (stands_of_withinAll (by decide) (by simp [hscope.widen hinside, hvalue]))
  · refine (yields_lowerField_stands hlower hbelow .receiver).bind ?_
    intro receiver hreceiver
    refine hright.bind ?_
    intro value hvalue
    exact .pure (stands_of_withinAll (by decide) (by simp [hreceiver.widen hinside, hvalue]))
  · refine (yields_lowerElement_stands hlower hbelow).bind ?_
    rintro ⟨object, indices⟩ hparts
    refine hright.bind ?_
    intro value hvalue
    have hwithin := Syntax.withinAll_append.1 (hparts.widen hinside)
    exact .pure (stands_of_withinAll (by decide) (by simp [hwithin, hvalue]))
  · refine .skip ?_
    intro _
    refine (hlower.child hn hchild).bind ?_
    intro target htarget
    refine hright.bind ?_
    intro value hvalue
    exact .pure (stands_of_withinAll (by decide) (by simp [htarget, hvalue]))

theorem yields_lowerAssignment_stands (hlower : LowersStanding s lower) (hn : n.Standing s) :
    Yields (lowerAssignment s lower n) (Stands s n) := by
  unfold lowerAssignment
  split
  · rename_i left hleft
    exact yields_lowerAssignmentTo_stands hlower hn hleft
  · exact yields_lowerGeneric_stands hlower (by decide) hn

theorem yields_lowerOperatorAssignment_stands (hlower : LowersStanding s lower)
    (hn : n.Standing s) : Yields (lowerOperatorAssignment s lower n) (Stands s n) := by
  unfold lowerOperatorAssignment
  split
  · split
    · exact yields_lowerLocalAssignment_stands hlower hn _
    · refine .skip ?_
      intro _
      exact yields_lowerGeneric_stands hlower (by decide) hn
  · exact yields_lowerGeneric_stands hlower (by decide) hn

/-! ## Texts and other constructs -/

theorem lowersStanding_lowerPart (hlower : LowersStanding s lower) :
    LowersStanding s (lowerPart s lower) := by
  intro n hn
  unfold lowerPart
  split
  · exact hlower n hn
  · exact yields_some_stands (.pure (stands_of_withinAll (by decide) (by simp)))

theorem yields_lowerText_stands (hlower : LowersStanding s lower) {plain dynamic : Kind}
    (hplain : plain ≠ .localVar) (hdynamic : dynamic ≠ .localVar) (hn : n.Standing s) :
    Yields (lowerText s lower plain dynamic n) (Stands s n) := by
  unfold lowerText
  split
  · refine (yields_lowerAll_withinAll (lowersStanding_lowerPart hlower)
      (Row.namedChildren hn)).bind ?_
    intro parts hparts
    exact .pure (stands_of_withinAll hdynamic (by simpa using hparts))
  · exact .pure (stands_of_withinAll hplain (by simp))

theorem yields_lowerPair_stands (hlower : LowersStanding s lower) (hn : n.Standing s) :
    Yields (lowerPair s lower n) (Stands s n) := by
  refine (yields_lowerField_stands hlower hn .key).bind ?_
  intro key hkey
  refine (yields_lowerField_stands hlower hn .value).bind ?_
  intro value hvalue
  exact .pure (stands_of_withinAll (by decide) (by simp [hkey, hvalue]))

theorem yields_lowerRange_stands (hlower : LowersStanding s lower) (hn : n.Standing s) :
    Yields (lowerRange s lower n) (Stands s n) := by
  refine (yields_lowerField_stands hlower hn .first).bind ?_
  intro first hfirst
  refine (yields_lowerField_stands hlower hn .last).bind ?_
  intro last hlast
  refine .pure (stands_of_withinAll ?_ (by simp [hfirst, hlast]))
  split <;> decide

theorem yields_lowerReturned_stands (hlower : LowersStanding s lower)
    (hrow : Row s region nodes) : Yields (lowerReturned s lower nodes) (WithinAll region) := by
  induction nodes with
  | nil => exact .pure (by simp)
  | cons n rest ih =>
      have hn := hrow.standing n List.mem_cons_self
      have hinside := hrow.inside n List.mem_cons_self
      -- what both sorts of arguments end with
      have hrest : ∀ values, WithinAll region values → Yields
          (do let terms ← lowerReturned s lower rest; pure (values ++ terms))
          (WithinAll region) := by
        intro values hvalues
        refine (ih (hrow.sublist (List.sublist_cons_self n rest))).bind ?_
        intro terms hterms
        exact .pure (by simp [hvalues, hterms])
      unfold lowerReturned
      dsimp only
      split
      · refine (yields_lowerArguments_stands hlower hn).bind ?_
        intro values hvalues
        exact hrest values (hvalues.widen hinside)
      · refine (hlower n hn).bind ?_
        intro term hterm
        exact hrest term.toList (withinAll_of_stands hterm hinside)

theorem yields_lowerReturn_stands (hlower : LowersStanding s lower) (hn : n.Standing s) :
    Yields (lowerReturn s lower n) (Stands s n) := by
  refine (yields_lowerReturned_stands hlower (Row.namedChildren hn)).bind ?_
  intro terms hterms
  exact .pure (stands_of_withinAll (by decide) (by simpa using hterms))

theorem yields_lowerDeclaring_stands (hlower : LowersStanding s lower)
    (target : Option Concrete.Node) (hn : n.Standing s) :
    Yields (lowerDeclaring s lower target n) (Stands s n) := by
  refine .skip ?_
  intro _
  exact yields_lowerGeneric_stands hlower (by decide) hn

/-! ## Programs -/

theorem yields_lowerConstruct_stands (hlower : LowersStanding s lower) (hn : n.Standing s) :
    Yields (lowerConstruct s lower n) (Stands s n) := by
  unfold lowerConstruct
  cases hkind : n.kind with
  | classNode => exact yields_lowerClass_stands hlower hn
  | moduleNode => exact yields_lowerModule_stands hlower hn
  | singletonClass => exact yields_lowerSingletonClass_stands hlower hn
  | method => exact yields_lowerMethod_stands hlower hn
  | singletonMethod => exact yields_lowerSingletonMethod_stands hlower hn
  | call => exact yields_lowerCall_stands hlower hn
  | block => exact yields_lowerBlock_stands hlower hn (Range.contains_refl _) (by simp)
  | doBlock => exact yields_lowerBlock_stands hlower hn (Range.contains_refl _) (by simp)
  | lambda => exact (yields_lowerGeneric_stands hlower (by decide) hn).within true
  | identifier => exact yields_lowerIdentifier_stands hn hkind
  | scopeResolution => exact yields_lowerScopeResolution_stands hlower hn
  | assignment => exact yields_lowerAssignment_stands hlower hn
  | operatorAssignment => exact yields_lowerOperatorAssignment_stands hlower hn
  | string => exact yields_lowerText_stands hlower (by decide) (by decide) hn
  | bareString => exact yields_lowerText_stands hlower (by decide) (by decide) hn
  | subshell => exact yields_lowerText_stands hlower (by decide) (by decide) hn
  | delimitedSymbol => exact yields_lowerText_stands hlower (by decide) (by decide) hn
  | bareSymbol => exact yields_lowerText_stands hlower (by decide) (by decide) hn
  | pair => exact yields_lowerPair_stands hlower hn
  | range => exact yields_lowerRange_stands hlower hn
  | returnNode => exact yields_lowerReturn_stands hlower hn
  | binary => exact yields_lowerBinary_stands hlower hn
  | unary => exact yields_lowerUnary_stands hlower hn
  | elementReference => exact yields_lowerElementReference_stands hlower hn
  | exceptionVariable => exact yields_lowerDeclaring_stands hlower _ hn
  | forNode => exact yields_lowerDeclaring_stands hlower _ hn
  | constant | selfNode | nilNode | trueNode | falseNode | integer | float | heredocBeginning
  | simpleSymbol | hashKeySymbol | instanceVariable | classVariable | globalVariable =>
      exact .pure (stands_of_withinAll (by decide) (by simp))
  | _ =>
      -- constructs over all there is below them, of a kind of their own or of none
      exact yields_lowerGeneric_stands hlower (by decide) hn

theorem lowersStanding_lowerNode (hlower : LowersStanding s lower) :
    LowersStanding s (lowerNode s lower) := by
  intro n hn
  unfold lowerNode
  split
  · exact .pure (by simp)
  · exact .pure (by simp)
  · exact .pure (by simp)
  · exact yields_some_stands (yields_lowerConstruct_stands hlower hn)

/-- At every depth; at the last one a node with a range and nothing in it is left. -/
theorem lowersStanding_lowerWithin (s : Source) (depth : Nat) :
    LowersStanding s (lowerWithin s depth) := by
  induction depth with
  | zero =>
      intro n _
      exact yields_some_stands (.pure (stands_of_withinAll (by decide) (by simp)))
  | succ depth ih => exact lowersStanding_lowerNode ih

theorem within_lowerProgram {root : Concrete.Node} (h : root.Standing s) :
    (lowerProgram s root).Within (some (s.range root)) := by
  have hterms := yields_lowerAll_withinAll (lowersStanding_lowerWithin s maxDepth)
    (Row.namedChildren h) .initial
  refine Term.within_of_range (by decide) ?_ (Range.contains_refl _)
  rw [Syntax.Child.nodes_map]
  exact hterms

end Lowering
end RubyIndex
