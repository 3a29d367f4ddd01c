import RubyIndex.Proofs.Lowering.Refinement
import RubyIndex.Proofs.Lowering.Regions
import RubyIndex.Proofs.Lowering.Yields
import RubyIndex.Proofs.Syntax.Innermost

/-!
# Lowered terms are nested

From a tree whose spans are in order, every rule of lowering makes a term with the range of its node
and with children that stand in that range, apart from each other.  This is so even where a range is
not that of one node: a sequence of statements, the hash of a run of pairs, and a call before its
block.

* `LowersNested`, a lowering that does so;
* `yields_lowerConstruct_nested`, the rule for each construct keeps to it;
* `nested_lowerProgram`, so the term of a whole text is nested;
* `Parsed.nodeAt?_innermost`, and a position of the text has an innermost node.
-/

namespace RubyIndex
namespace Lowering

open Concrete (Source Field)
open Syntax (Kind Child Leaf Term Fills)

/-- A lowering that turns nodes in order into terms that cover them. -/
def LowersNested (s : Source) (lower : Lower Lowering Term) : Prop :=
  ∀ n, n.InOrder s → Yields (lower n) fun term => ∀ t ∈ term, Covers s n t

variable {s : Source} {lower : Lower Lowering Term} {n : Concrete.Node} {nodes : List Concrete.Node}

/-! ## Nodes below -/

theorem yields_lowerAll_nested (hlower : LowersNested s lower) {nodes : List Concrete.Node}
    (hnodes : ∀ c ∈ nodes, c.InOrder s) : Yields (lowerAll lower nodes) (Lowered s nodes) := by
  induction nodes with
  | nil => exact .pure .nil
  | cons n rest ih =>
      refine (hlower n (hnodes n List.mem_cons_self)).bind ?_
      intro term hterm
      refine (ih fun c hc => hnodes c (List.mem_cons_of_mem _ hc)).bind ?_
      intro terms hterms
      exact .pure (hterms.cons hterm)

/-- The term of one node. -/
theorem LowersNested.fills (hlower : LowersNested s lower) (hn : n.InOrder s) :
    Yields (lower n) fun term => Fills [s.range n] term.toList :=
  (hlower n hn).mono fun _ hterm => fills_of_covers hterm

theorem yields_lowerField_nested (hlower : LowersNested s lower) (hn : n.InOrder s)
    (role : Field) :
    Yields (lowerField lower n role) fun term => Fills (fieldRegions s n role) term.toList := by
  unfold lowerField lowerOption
  split
  · exact .pure .nil
  · rename_i c hc
    rw [fieldRegions_eq hc]
    exact hlower.fills (hn.field hc)

theorem yields_lowerGeneric_nested (hlower : LowersNested s lower) (kind : Kind)
    (hn : n.InOrder s) : Yields (lowerGeneric s lower kind n) (Covers s n) := by
  refine (yields_lowerAll_nested hlower (InRow.namedChildren hn).inOrder).bind ?_
  intro terms hterms
  exact .pure (hterms.covers hn List.filter_sublist kind)

theorem yields_lowerStatements_nested (hlower : LowersNested s lower)
    (hrow : InRow s nodes) (owner : Concrete.Node) :
    Yields (lowerStatements s lower nodes owner) fun term =>
      Fills (hull s nodes) term.toList := by
  rw [lowerStatements_eq]
  refine (yields_lowerAll_nested hlower hrow.inOrder).bind ?_
  intro terms hterms
  exact .pure (hterms.fills_joined hrow owner)

/-- A rule that always makes a term. -/
theorem yields_some_nested {step : Lowering Term} (h : Yields step (Covers s n)) :
    Yields (do let term ← step; pure (some term)) fun term => ∀ t ∈ term, Covers s n t := by
  refine h.bind ?_
  intro term hterm
  exact .pure (by simpa using hterm)

/-! ## Parameters -/

theorem yields_lowerDefaulted_nested (hlower : LowersNested s lower) (hn : n.InOrder s) :
    Yields (lowerDefaulted s lower n) (Covers s n) := by
  refine .skip ?_
  intro _
  refine (yields_lowerField_nested hlower hn .value).bind ?_
  intro default hdefault
  have hfills := fills_field hn hdefault
  exact .pure (covers_of_fills (by simpa using hfills))

theorem yields_lowerCollecting_nested (kind : Kind) (n : Concrete.Node) :
    Yields (lowerCollecting s kind n) (Covers s n) := by
  unfold lowerCollecting
  split
  · refine .skip ?_
    intro _
    exact .pure (covers_leaves rfl)
  · exact .pure (covers_leaves rfl)

mutual

theorem yields_lowerParameter_nested (hlower : LowersNested s lower) :
    ∀ n : Concrete.Node, n.InOrder s →
      Yields (lowerParameter s lower n) fun term => ∀ t ∈ term, Covers s n t
  | ⟨id, kind, named, start, stop, role, children⟩, hn => by
      unfold lowerParameter
      split
      · refine .skip ?_
        intro _
        exact yields_some_nested (.pure (covers_leaves rfl))
      · exact yields_some_nested (yields_lowerDefaulted_nested hlower hn)
      · exact yields_some_nested (yields_lowerDefaulted_nested hlower hn)
      · exact yields_some_nested (yields_lowerCollecting_nested _ _)
      · exact yields_some_nested (yields_lowerCollecting_nested _ _)
      · exact yields_some_nested (yields_lowerCollecting_nested _ _)
      · exact yields_some_nested (.pure (covers_leaves rfl))
      · refine (yields_lowerParameterList_nested hlower children fun c hc => hn.child hc).bind ?_
        intro parts hparts
        exact yields_some_nested (.pure (hparts.covers hn (List.Sublist.refl _) _))
      · exact .pure (by simp)

theorem yields_lowerParameterList_nested (hlower : LowersNested s lower) :
    ∀ nodes : List Concrete.Node, (∀ c ∈ nodes, c.InOrder s) →
      Yields (lowerParameterList s lower nodes) (Lowered s nodes)
  | [], _ => by
      unfold lowerParameterList
      exact .pure .nil
  | n :: rest, hnodes => by
      have hrest := yields_lowerParameterList_nested hlower rest fun c hc =>
        hnodes c (List.mem_cons_of_mem _ hc)
      unfold lowerParameterList
      split
      · refine (yields_lowerParameter_nested hlower n (hnodes n List.mem_cons_self)).bind ?_
        intro term hterm
        refine hrest.bind ?_
        intro terms hterms
        exact .pure (hterms.cons hterm)
      · exact hrest.mono fun terms hterms => hterms.skip

end

/-- Parameters that were not written stand nowhere. -/
theorem yields_lowerParameters_nested (hlower : LowersNested s lower) (hn : n.InOrder s) :
    Yields (lowerParameters s lower (n.field? .parameters)) fun term =>
      Fills (fieldRegions s n .parameters) [term] := by
  unfold fieldRegions
  cases hc : n.field? .parameters with
  | none =>
      -- an empty list without a range
      exact .pure (.unlocated (Term.nested_of_nodes_eq_nil rfl) rfl)
  | some list =>
      have hlist := hn.field hc
      refine (yields_lowerParameterList_nested hlower list.children fun c hc =>
        hlist.child hc).bind ?_
      intro terms hterms
      exact .pure (hterms.covers hlist (List.Sublist.refl _) _).fills

/-! ## Declarations -/

theorem yields_lowerBody_nested (hlower : LowersNested s lower) (hn : n.InOrder s)
    (header : List (Option Concrete.Node)) :
    Yields (lowerBody s lower n header) fun term =>
      Fills (hull s (n.bodyNodes header)) term.toList :=
  (yields_lowerStatements_nested hlower (InRow.bodyNodes hn header) n).within false

/-- The expression a class is derived from stands in the child that holds it. -/
theorem yields_superclass_nested (hlower : LowersNested s lower) (hn : n.InOrder s) :
    Yields (lowerOption lower (superclassNode? n)) fun term =>
      Fills (fieldRegions s n .superclass) term.toList := by
  unfold superclassNode? fieldRegions
  cases hc : n.field? .superclass with
  | none => exact .pure .nil
  | some c =>
      have hbelow := hn.field hc
      rw [Option.bind_some]
      split
      · -- behind `<` there is a node of its own, with the expression in it
        cases he : c.namedChildren.head? with
        | none => exact .pure .nil
        | some e =>
            have hmem := Concrete.Node.mem_children_of_namedChildren (List.mem_of_mem_head? he)
            refine (hlower.fills (hbelow.child hmem)).mono ?_
            intro term hterm
            exact hterm.into (by simpa using hbelow.contains_child hmem)
      · exact hlower.fills hbelow

theorem yields_lowerClass_nested (hlower : LowersNested s lower) (hn : n.InOrder s)
    (hkind : n.kind = .classNode) : Yields (lowerClass s lower n) (Covers s n) := by
  refine (yields_lowerField_nested hlower hn .name).bind ?_
  intro name hname
  refine (yields_superclass_nested hlower hn).bind ?_
  intro superclass hsuperclass
  refine (yields_lowerBody_nested hlower hn _).bind ?_
  intro body hbody
  have hfills := fills_headers_body hn (hn.headerFirst hkind) (by decide) (by decide) (by decide)
    hname hsuperclass hbody
  exact .pure (covers_of_fills (by simpa using hfills))

theorem yields_lowerModule_nested (hlower : LowersNested s lower) (hn : n.InOrder s)
    (hkind : n.kind = .moduleNode) : Yields (lowerModule s lower n) (Covers s n) := by
  refine (yields_lowerField_nested hlower hn .name).bind ?_
  intro name hname
  refine (yields_lowerBody_nested hlower hn _).bind ?_
  intro body hbody
  have hfills := fills_header_body hn (hn.headerFirst hkind)
    (fun a ha => ⟨.name, by decide, ha⟩) hname hbody
  exact .pure (covers_of_fills (by simpa using hfills))

theorem yields_lowerSingletonClass_nested (hlower : LowersNested s lower) (hn : n.InOrder s)
    (hkind : n.kind = .singletonClass) :
    Yields (lowerSingletonClass s lower n) (Covers s n) := by
  refine (yields_lowerField_nested hlower hn .value).bind ?_
  intro object hobject
  refine (yields_lowerBody_nested hlower hn _).bind ?_
  intro body hbody
  have hfills := fills_header_body hn (hn.headerFirst hkind)
    (fun a ha => ⟨.value, by decide, ha⟩) hobject hbody
  exact .pure (covers_of_fills (by simpa using hfills))

theorem yields_lowerCallable_nested (hlower : LowersNested s lower) (seesOuter : Bool)
    (hn : n.InOrder s) (header : List (Option Concrete.Node)) :
    Yields (lowerCallable s lower seesOuter n header) fun parts =>
      Fills (fieldRegions s n .parameters) [parts.1] ∧
        Fills (hull s (n.bodyNodes header)) parts.2.toList := by
  refine Yields.within ?_ seesOuter
  refine (yields_lowerParameters_nested hlower hn).bind ?_
  intro parameters hparameters
  refine (yields_lowerStatements_nested hlower (InRow.bodyNodes hn header) n).bind ?_
  intro body hbody
  exact .pure ⟨hparameters, hbody⟩

theorem yields_lowerMethod_nested (hlower : LowersNested s lower) (hn : n.InOrder s)
    (hkind : n.kind = .method) : Yields (lowerMethod s lower n) (Covers s n) := by
  refine (yields_lowerCallable_nested hlower false hn _).bind ?_
  rintro ⟨parameters, body⟩ ⟨hparameters, hbody⟩
  have hfills := fills_header_body hn (hn.headerFirst hkind)
    (fun a ha => ⟨.parameters, by decide, ha⟩) hparameters hbody
  exact .pure (covers_of_fills (by simpa using hfills))

theorem yields_lowerSingletonMethod_nested (hlower : LowersNested s lower) (hn : n.InOrder s)
    (hkind : n.kind = .singletonMethod) :
    Yields (lowerSingletonMethod s lower n) (Covers s n) := by
  refine (yields_lowerField_nested hlower hn .object).bind ?_
  intro object hobject
  refine (yields_lowerCallable_nested hlower false hn _).bind ?_
  rintro ⟨parameters, body⟩ ⟨hparameters, hbody⟩
  have hfills := fills_headers_body hn (hn.headerFirst hkind) (by decide) (by decide) (by decide)
    hobject hparameters hbody
  exact .pure (covers_of_fills (by simpa using hfills))

/-! ## Arguments -/

/-- The hash of a run of pairs stands in the hull of the run. -/
theorem yields_keywordHash_nested (hlower : LowersNested s lower) (hrow : InRow s nodes) :
    Yields (keywordHash s lower nodes) fun hash => Fills (hull s nodes) hash.toList := by
  unfold keywordHash
  split
  · rename_i first last hfirst hlast
    refine (yields_lowerAll_nested hlower hrow.inOrder).bind ?_
    intro terms hterms
    have hfills := hterms.fills_hull hrow
    rw [hull_eq hfirst hlast] at hfills ⊢
    exact .pure (Fills.enclose (by simpa using hfills))
  · exact .pure .nil

/-- Each hash takes up a stretch of the row that no other argument is in. -/
theorem yields_lowerArgumentsAfter_nested (hlower : LowersNested s lower)
    (nodes : List Concrete.Node) : ∀ pairs, InRow s (pairs ++ nodes) →
      Yields (lowerArgumentsAfter s lower pairs nodes) (Fills (hull s (pairs ++ nodes))) := by
  induction nodes with
  | nil =>
      intro pairs hrow
      rw [List.append_nil] at hrow ⊢
      refine (yields_keywordHash_nested hlower hrow).bind ?_
      intro hash hhash
      exact .pure hhash
  | cons n rest ih =>
      intro pairs hrow
      unfold lowerArgumentsAfter
      split
      · -- the run goes on
        have hlonger := ih (pairs ++ [n])
        rw [List.append_assoc] at hlonger
        exact hlonger hrow
      · -- the run ends here, and another one may begin behind this node
        have hpairs := hrow.sublist (List.sublist_append_left pairs (n :: rest))
        have hrest := hrow.sublist (List.sublist_append_right pairs (n :: rest))
        refine (yields_keywordHash_nested hlower hpairs).bind ?_
        intro hash hhash
        refine (hlower.fills (hrest.inOrder n List.mem_cons_self)).bind ?_
        intro term hterm
        refine (ih [] (hrest.sublist (List.sublist_cons_self n rest))).bind ?_
        intro terms hterms
        have hone : Fills (hull s [n]) term.toList := hterm
        have hall := fills_hull_append hrow hhash (fills_hull_append hrest hone hterms)
        exact .pure (by rwa [List.append_assoc])

theorem yields_lowerArguments_nested (hlower : LowersNested s lower) (hn : n.InOrder s) :
    Yields (lowerArguments s lower n) (Fills [s.range n]) :=
  (yields_lowerArgumentsAfter_nested hlower n.namedChildren [] (InRow.namedChildren hn)).mono
    fun _ hterms => fills_hull_namedChildren hn hterms

/-! ## Calls and blocks -/

/-- A block behind what it is given to. -/
theorem yields_lowerBlock_nested (hlower : LowersNested s lower) {block outer : Concrete.Node}
    (hblock : block.InOrder s)
    (hfirst : block.HeaderFirst (fun m => (s.range m).start) (fun m => (s.range m).stop)
      [.parameters])
    (hinside : (s.range outer).contains (s.range block) = true)
    {regions : List Range} {call : Option Term} (hcall : Fills regions call.toList)
    (hregions : ∀ a ∈ regions, (s.range outer).contains a = true)
    (hapart : ∀ a ∈ regions, a.Apart (s.range block)) :
    Yields (lowerBlock s lower block call outer) (Covers s outer) := by
  refine (yields_lowerCallable_nested hlower true hblock _).bind ?_
  rintro ⟨parameters, body⟩ ⟨hparameters, hbody⟩
  have hown := fills_header_body hblock hfirst
    (fun a ha => ⟨.parameters, by decide, ha⟩) hparameters hbody
  have hall : Fills [s.range outer] (call.toList ++ ([parameters] ++ body.toList)) := by
    refine (hcall.append hown (by simpa using hapart)).into ?_
    intro a ha
    rcases List.mem_append.1 ha with ha | ha
    · exact hregions a ha
    · rwa [List.mem_singleton.1 ha]
  exact .pure (covers_of_fills (by simpa using hall))

theorem yields_lowerBlock_alone (hlower : LowersNested s lower) (hn : n.InOrder s)
    (hfirst : n.HeaderFirst (fun m => (s.range m).start) (fun m => (s.range m).stop)
      [.parameters]) :
    Yields (lowerBlock s lower n none n) (Covers s n) :=
  yields_lowerBlock_nested hlower hn hfirst (Range.contains_refl _)
    (Fills.nil : Fills [] (none : Option Term).toList) (by simp) (by simp)

theorem callRange_start (s : Source) (n : Concrete.Node) :
    (callRange s n).start = (s.range n).start := by
  unfold callRange
  dsimp only
  split <;> rfl

/-- The parts of a call end where it does, or before. -/
theorem stop_le_callRange {role : Field} (hrole : role ∈ [Field.receiver, .method, .arguments])
    {part : Concrete.Node} (hpart : n.field? role = some part) :
    (s.range part).stop ≤ (callRange s n).stop := by
  have hmem : part ∈ [n.field? .arguments, n.field? .method, n.field? .receiver].filterMap id := by
    simp only [List.mem_cons, List.not_mem_nil, or_false] at hrole
    rw [List.mem_filterMap]
    rcases hrole with rfl | rfl | rfl <;> exact ⟨some part, by simp [hpart], rfl⟩
  have hstop := List.mem_map_of_mem (f := fun part => (s.range part).stop) hmem
  unfold callRange
  dsimp only
  split
  · rename_i hnone
    rw [hnone] at hstop
    cases hstop
  · rename_i stop stops hstops
    rw [hstops] at hstop
    exact Position.foldl_latest_le_iff.1 (le_refl _) _ hstop

/-- A call ends with the last of its parts. -/
theorem callRange_stop_le {p : Position} (hstart : (s.range n).start ≤ p)
    (hparts : ∀ role ∈ [Field.receiver, .method, .arguments], ∀ part ∈ n.field? role,
      (s.range part).stop ≤ p) : (callRange s n).stop ≤ p := by
  have hstops : ∀ stop ∈ ([n.field? .arguments, n.field? .method, n.field? .receiver].filterMap
      id).map (fun part => (s.range part).stop), stop ≤ p := by
    intro stop hstop
    obtain ⟨part, hpart, rfl⟩ := List.mem_map.1 hstop
    obtain ⟨field, hfield, rfl⟩ := List.mem_filterMap.1 hpart
    simp only [List.mem_cons, List.not_mem_nil, or_false] at hfield
    rcases hfield with hrole | hrole | hrole
    · exact hparts .arguments (by decide) part hrole.symm
    · exact hparts .method (by decide) part hrole.symm
    · exact hparts .receiver (by decide) part hrole.symm
  unfold callRange
  dsimp only
  split
  · exact hstart
  · rename_i hall
    rw [hall] at hstops
    exact Position.foldl_latest_le_iff.2 hstops

theorem fieldRegions_inside_callRange (hn : n.InOrder s) {role : Field}
    (hrole : role ∈ [Field.receiver, .method, .arguments]) :
    ∀ a ∈ fieldRegions s n role, (callRange s n).contains a = true := by
  intro a ha
  obtain ⟨part, hpart, rfl⟩ := mem_fieldRegions ha
  have hinside := hn.arranged.inside part (Concrete.Node.mem_children_of_field? hpart)
  rw [Range.contains_iff, callRange_start]
  exact ⟨hinside.1, stop_le_callRange hrole hpart⟩

theorem callRange_inside (hn : n.InOrder s) :
    (s.range n).contains (callRange s n) = true := by
  rw [Range.contains_iff, callRange_start]
  refine ⟨le_refl _, callRange_stop_le hn.arranged.lo_le_hi ?_⟩
  intro role _ part hpart
  exact (hn.arranged.inside part (Concrete.Node.mem_children_of_field? hpart)).2

/-- A call of which the receiver and the arguments are known, with its block or without one. -/
theorem yields_call_or_block_nested (hlower : LowersNested s lower) (hn : n.InOrder s)
    (hkind : n.kind = .call) {kind : Kind} {receiver : Option Term} {name : String}
    {arguments : List Term} (hreceiver : Fills (fieldRegions s n .receiver) receiver.toList)
    (harguments : Fills (fieldRegions s n .arguments) arguments) :
    Yields
      (match n.field? .block with
        | none => pure (documentable s kind
            (.ofOption receiver :: symbol name :: arguments.map .node) n)
        | some block =>
            lowerBlock s lower block
              (some ⟨kind, .ofOption receiver :: symbol name :: arguments.map .node,
                some (callRange s n), some (s.startRow n)⟩) n)
      (Covers s n) := by
  split
  · have hfills := fills_fields hn (by decide) hreceiver harguments
    exact .pure (covers_of_fills (by simpa using hfills))
  · rename_i block hblock
    obtain ⟨hbefore, hfirst⟩ := hn.arranged.block_last hkind block hblock
    have hchild := Concrete.Node.mem_children_of_field? hblock
    have hspan := hn.contains_child hchild
    -- the call holds its parts, and the block comes behind them
    have hcall : Fills [callRange s n] (receiver.toList ++ arguments) := by
      refine (hreceiver.append harguments (fieldRegions_apart hn (by decide))).into ?_
      intro a ha
      rcases List.mem_append.1 ha with ha | ha
      · exact fieldRegions_inside_callRange hn (by decide) a ha
      · exact fieldRegions_inside_callRange hn (by decide) a ha
    have hends : (callRange s n).Apart (s.range block) :=
      Or.inl (callRange_stop_le (Range.contains_iff.1 hspan).1 hbefore)
    exact yields_lowerBlock_nested hlower (hn.child hchild) hfirst hspan
      (Fills.enclose (by simpa using hcall)) (by simpa using callRange_inside hn)
      (by simpa using hends)

theorem yields_lowerCall_nested (hlower : LowersNested s lower) (hn : n.InOrder s)
    (hkind : n.kind = .call) : Yields (lowerCall s lower n) (Covers s n) := by
  refine (yields_lowerField_nested hlower hn .receiver).bind ?_
  intro receiver hreceiver
  dsimp only
  split
  · rename_i list hlist
    refine (yields_lowerArguments_nested hlower (hn.field hlist)).bind ?_
    intro arguments harguments
    rw [← fieldRegions_eq hlist] at harguments
    exact yields_call_or_block_nested hlower hn hkind hreceiver harguments
  · exact yields_call_or_block_nested hlower hn hkind hreceiver .nil

theorem yields_lowerIdentifier_nested (n : Concrete.Node) :
    Yields (lowerIdentifier s n) (Covers s n) := by
  refine .skip ?_
  intro scopes
  split
  · exact .pure (covers_leaves rfl)
  · exact .pure (covers_leaves rfl)

/-! ## Operators -/

theorem yields_lowerBinary_nested (hlower : LowersNested s lower) (hn : n.InOrder s) :
    Yields (lowerBinary s lower n) (Covers s n) := by
  unfold lowerBinary
  split
  · rename_i left operator right hleft _ hright
    refine (hlower.fills (hn.field hleft)).bind ?_
    intro a ha
    refine (hlower.fills (hn.field hright)).bind ?_
    intro b hb
    rw [← fieldRegions_eq hleft] at ha
    rw [← fieldRegions_eq hright] at hb
    have hfills := fills_fields hn (by decide) ha hb
    dsimp only
    split
    · exact .pure (covers_of_fills (by simpa using hfills))
    · exact .pure (covers_of_fills (by simpa using hfills))
  · exact yields_lowerGeneric_nested hlower _ hn

theorem yields_lowerUnary_nested (hlower : LowersNested s lower) (hn : n.InOrder s) :
    Yields (lowerUnary s lower n) (Covers s n) := by
  unfold lowerUnary
  split
  · rename_i name operand _ hoperand
    refine (hlower.fills (hn.field hoperand)).bind ?_
    intro term hterm
    rw [← fieldRegions_eq hoperand] at hterm
    have hfills := fills_field hn hterm
    exact .pure (covers_of_fills (by simpa using hfills))
  · exact yields_lowerGeneric_nested hlower _ hn

/-- The indices of an element reference are other children than its object. -/
theorem yields_lowerElement_nested (hlower : LowersNested s lower) (hn : n.InOrder s) :
    Yields (lowerElement lower n) fun parts =>
      Fills [s.range n] (parts.1.toList ++ parts.2) := by
  have hsub : List.Sublist (n.namedChildrenExcept [n.field? .object]) n.children :=
    List.filter_sublist.trans List.filter_sublist
  have hrow := (InRow.children hn).sublist hsub
  have hapart : ∀ a ∈ fieldRegions s n .object,
      ∀ b ∈ (n.namedChildrenExcept [n.field? .object]).map s.range, a.Apart b := by
    intro a ha b hb
    obtain ⟨object, hobject, rfl⟩ := mem_fieldRegions ha
    obtain ⟨index, hindex, rfl⟩ := List.mem_map.1 hb
    refine hn.apart (Concrete.Node.mem_children_of_field? hobject) (hsub.subset hindex) ?_
    -- the object was left out by its number
    rintro rfl
    have hother := (List.mem_filter.1 hindex).2
    simp [hobject] at hother
  refine (yields_lowerField_nested hlower hn .object).bind ?_
  intro object hobject
  refine (yields_lowerAll_nested hlower hrow.inOrder).bind ?_
  intro indices hindices
  refine .pure ((hobject.append (hindices.fills hrow) hapart).into ?_)
  intro a ha
  rcases List.mem_append.1 ha with ha | ha
  · exact fieldRegions_inside hn .object a ha
  · obtain ⟨index, hindex, rfl⟩ := List.mem_map.1 ha
    exact hn.contains_child (hsub.subset hindex)

theorem yields_lowerElementReference_nested (hlower : LowersNested s lower) (hn : n.InOrder s) :
    Yields (lowerElementReference s lower n) (Covers s n) := by
  refine (yields_lowerElement_nested hlower hn).bind ?_
  rintro ⟨object, indices⟩ hparts
  exact .pure (covers_of_fills (by simpa using hparts))

/-! ## Constants and assignments -/

theorem yields_lowerScope_nested (hlower : LowersNested s lower) (hn : n.InOrder s) :
    Yields (lowerScope lower n) fun term => Fills (fieldRegions s n .scope) term.toList := by
  unfold lowerScope fieldRegions
  split
  · rename_i scope hscope
    rw [hscope]
    exact hlower.fills (hn.field hscope)
  · -- the top level, which has no range
    rename_i hscope
    rw [hscope]
    exact .pure (.unlocated (Term.nested_of_nodes_eq_nil rfl) rfl)

theorem yields_lowerScopeResolution_nested (hlower : LowersNested s lower) (hn : n.InOrder s) :
    Yields (lowerScopeResolution s lower n) (Covers s n) := by
  refine (yields_lowerScope_nested hlower hn).bind ?_
  intro scope hscope
  have hfills := fills_field hn hscope
  exact .pure (covers_of_fills (by simpa using hfills))

theorem yields_lowerValue_nested (hlower : LowersNested s lower) (hn : n.InOrder s) :
    Yields (lowerValue s lower (n.field? .right)) fun term =>
      Fills (fieldRegions s n .right) term.toList := by
  unfold lowerValue
  split
  · exact .pure .nil
  · rename_i value hvalue
    have hbelow := hn.field hvalue
    rw [fieldRegions_eq hvalue]
    split
    · exact (yields_some_nested (yields_lowerGeneric_nested hlower _ hbelow)).mono
        fun _ hterm => fills_of_covers hterm
    · exact hlower.fills hbelow

theorem yields_lowerLocalAssignment_nested (hlower : LowersNested s lower) (hn : n.InOrder s)
    (left : Concrete.Node) : Yields (lowerLocalAssignment s lower left n) (Covers s n) := by
  refine .skip ?_
  intro _
  refine (yields_lowerValue_nested hlower hn).bind ?_
  intro value hvalue
  have hfills := fills_field hn hvalue
  exact .pure (covers_of_fills (by simpa using hfills))

theorem yields_lowerVariableAssignment_nested (hlower : LowersNested s lower) (hn : n.InOrder s)
    (kind : Kind) (left : Concrete.Node) :
    Yields (lowerVariableAssignment s lower kind left n) (Covers s n) := by
  refine (yields_lowerValue_nested hlower hn).bind ?_
  intro value hvalue
  have hfills := fills_field hn hvalue
  exact .pure (covers_of_fills (by simpa using hfills))

theorem yields_lowerAssignmentTo_nested (hlower : LowersNested s lower) (hn : n.InOrder s)
    {left : Concrete.Node} (hleft : n.field? .left = some left) :
    Yields (lowerAssignmentTo s lower left n) (Covers s n) := by
  have hbelow := hn.field hleft
  have hright := yields_lowerValue_nested hlower hn
  -- whatever is made of the target stands in it, and so apart from the value
  have hsides : ∀ {target : List Term} {value : Option Term}, Fills [s.range left] target →
      Fills (fieldRegions s n .right) value.toList →
        Fills [s.range n] (target ++ value.toList) := by
    intro target value htarget hvalue
    rw [← fieldRegions_eq hleft] at htarget
    exact fills_fields hn (by decide) htarget hvalue
  unfold lowerAssignmentTo
  split
  · exact yields_lowerLocalAssignment_nested hlower hn left
  · exact yields_lowerVariableAssignment_nested hlower hn _ left
  · exact yields_lowerVariableAssignment_nested hlower hn _ left
  · exact yields_lowerVariableAssignment_nested hlower hn _ left
  · refine hright.bind ?_
    intro value hvalue
    have hfills := fills_field hn hvalue
    exact .pure (covers_of_fills (by simpa using hfills))
  · refine (yields_lowerScope_nested hlower hbelow).bind ?_
    intro scope hscope
    refine hright.bind ?_
    intro value hvalue
    have hfills := hsides (fills_field hbelow hscope) hvalue
    exact .pure (covers_of_fills (by simpa using hfills))
  · refine (yields_lowerField_nested hlower hbelow .receiver).bind ?_
    intro receiver hreceiver
    refine hright.bind ?_
    intro value hvalue
    have hfills := hsides (fills_field hbelow hreceiver) hvalue
    exact .pure (covers_of_fills (by simpa using hfills))
  · refine (yields_lowerElement_nested hlower hbelow).bind ?_
    rintro ⟨object, indices⟩ hparts
    refine hright.bind ?_
    intro value hvalue
    have hfills := hsides hparts hvalue
    exact .pure (covers_of_fills (by simpa using hfills))
  · refine .skip ?_
    intro _
    refine (hlower.fills hbelow).bind ?_
    intro target htarget
    refine hright.bind ?_
    intro value hvalue
    have hfills := hsides htarget hvalue
    exact .pure (covers_of_fills (by simpa using hfills))

theorem yields_lowerAssignment_nested (hlower : LowersNested s lower) (hn : n.InOrder s) :
    Yields (lowerAssignment s lower n) (Covers s n) := by
  unfold lowerAssignment
  split
  · rename_i left hleft
    exact yields_lowerAssignmentTo_nested hlower hn hleft
  · exact yields_lowerGeneric_nested hlower _ hn

theorem yields_lowerOperatorAssignment_nested (hlower : LowersNested s lower)
    (hn : n.InOrder s) : Yields (lowerOperatorAssignment s lower n) (Covers s n) := by
  unfold lowerOperatorAssignment
  split
  · split
    · exact yields_lowerLocalAssignment_nested hlower hn _
    · refine .skip ?_
      intro _
      exact yields_lowerGeneric_nested hlower _ hn
  · exact yields_lowerGeneric_nested hlower _ hn

/-! ## Texts and other constructs -/

theorem lowersNested_lowerPart (hlower : LowersNested s lower) :
    LowersNested s (lowerPart s lower) := by
  intro n hn
  unfold lowerPart
  split
  · exact hlower n hn
  · exact yields_some_nested (.pure (covers_leaves rfl))

theorem yields_lowerText_nested (hlower : LowersNested s lower) (plain dynamic : Kind)
    (hn : n.InOrder s) : Yields (lowerText s lower plain dynamic n) (Covers s n) := by
  unfold lowerText
  split
  · have hrow := InRow.namedChildren hn
    refine (yields_lowerAll_nested (lowersNested_lowerPart hlower) hrow.inOrder).bind ?_
    intro parts hparts
    exact .pure (hparts.covers hn List.filter_sublist dynamic)
  · exact .pure (covers_leaves rfl)

theorem yields_lowerPair_nested (hlower : LowersNested s lower) (hn : n.InOrder s) :
    Yields (lowerPair s lower n) (Covers s n) := by
  refine (yields_lowerField_nested hlower hn .key).bind ?_
  intro key hkey
  refine (yields_lowerField_nested hlower hn .value).bind ?_
  intro value hvalue
  have hfills := fills_fields hn (by decide) hkey hvalue
  exact .pure (covers_of_fills (by simpa using hfills))

theorem yields_lowerRange_nested (hlower : LowersNested s lower) (hn : n.InOrder s) :
    Yields (lowerRange s lower n) (Covers s n) := by
  refine (yields_lowerField_nested hlower hn .first).bind ?_
  intro first hfirst
  refine (yields_lowerField_nested hlower hn .last).bind ?_
  intro last hlast
  have hfills := fills_fields hn (by decide) hfirst hlast
  exact .pure (covers_of_fills (by simpa using hfills))

theorem yields_lowerReturned_nested (hlower : LowersNested s lower)
    {nodes : List Concrete.Node} (hrow : InRow s nodes) :
    Yields (lowerReturned s lower nodes) (Fills (hull s nodes)) := by
  induction nodes with
  | nil => exact .pure .nil
  | cons n rest ih =>
      have hn := hrow.inOrder n List.mem_cons_self
      -- what both sorts of arguments end with
      have hrest : ∀ values, Fills [s.range n] values → Yields
          (do let terms ← lowerReturned s lower rest; pure (values ++ terms))
          (Fills (hull s (n :: rest))) := by
        intro values hvalues
        refine (ih (hrow.sublist (List.sublist_cons_self n rest))).bind ?_
        intro terms hterms
        have hone : Fills (hull s [n]) values := hvalues
        exact .pure (fills_hull_append hrow hone hterms)
      unfold lowerReturned
      dsimp only
      split
      · exact (yields_lowerArguments_nested hlower hn).bind hrest
      · refine (hlower.fills hn).bind ?_
        intro term hterm
        exact hrest term.toList hterm

theorem yields_lowerReturn_nested (hlower : LowersNested s lower) (hn : n.InOrder s) :
    Yields (lowerReturn s lower n) (Covers s n) := by
  refine (yields_lowerReturned_nested hlower (InRow.namedChildren hn)).bind ?_
  intro terms hterms
  have hfills := fills_hull_namedChildren hn hterms
  exact .pure (covers_of_fills (by simpa using hfills))

theorem yields_lowerDeclaring_nested (hlower : LowersNested s lower)
    (target : Option Concrete.Node) (hn : n.InOrder s) :
    Yields (lowerDeclaring s lower target n) (Covers s n) := by
  refine .skip ?_
  intro _
  exact yields_lowerGeneric_nested hlower _ hn

/-! ## Programs -/

theorem yields_lowerConstruct_nested (hlower : LowersNested s lower) (hn : n.InOrder s) :
    Yields (lowerConstruct s lower n) (Covers s n) := by
  unfold lowerConstruct
  cases hkind : n.kind with
  | classNode => exact yields_lowerClass_nested hlower hn hkind
  | moduleNode => exact yields_lowerModule_nested hlower hn hkind
  | singletonClass => exact yields_lowerSingletonClass_nested hlower hn hkind
  | method => exact yields_lowerMethod_nested hlower hn hkind
  | singletonMethod => exact yields_lowerSingletonMethod_nested hlower hn hkind
  | call => exact yields_lowerCall_nested hlower hn hkind
  | block => exact yields_lowerBlock_alone hlower hn (hn.headerFirst hkind)
  | doBlock => exact yields_lowerBlock_alone hlower hn (hn.headerFirst hkind)
  | lambda => exact (yields_lowerGeneric_nested hlower _ hn).within true
  | identifier => exact yields_lowerIdentifier_nested n
  | scopeResolution => exact yields_lowerScopeResolution_nested hlower hn
  | assignment => exact yields_lowerAssignment_nested hlower hn
  | operatorAssignment => exact yields_lowerOperatorAssignment_nested hlower hn
  | string => exact yields_lowerText_nested hlower _ _ hn
  | bareString => exact yields_lowerText_nested hlower _ _ hn
  | subshell => exact yields_lowerText_nested hlower _ _ hn
  | delimitedSymbol => exact yields_lowerText_nested hlower _ _ hn
  | bareSymbol => exact yields_lowerText_nested hlower _ _ hn
  | pair => exact yields_lowerPair_nested hlower hn
  | range => exact yields_lowerRange_nested hlower hn
  | returnNode => exact yields_lowerReturn_nested hlower hn
  | binary => exact yields_lowerBinary_nested hlower hn
  | unary => exact yields_lowerUnary_nested hlower hn
  | elementReference => exact yields_lowerElementReference_nested hlower hn
  | exceptionVariable => exact yields_lowerDeclaring_nested hlower _ hn
  | forNode => exact yields_lowerDeclaring_nested hlower _ hn
  | _ =>
      -- literals and the like, with nothing below them, and constructs without a rule of their own
      first
        | exact yields_lowerGeneric_nested hlower _ hn
        | exact .pure (covers_leaves rfl)

theorem lowersNested_lowerNode (hlower : LowersNested s lower) :
    LowersNested s (lowerNode s lower) := by
  intro n hn
  unfold lowerNode
  split
  · exact .pure (by simp)
  · exact .pure (by simp)
  · exact .pure (by simp)
  · exact yields_some_nested (yields_lowerConstruct_nested hlower hn)

/-- At every depth; at the last one a node with a range and nothing in it is left. -/
theorem lowersNested_lowerWithin (s : Source) (depth : Nat) :
    LowersNested s (lowerWithin s depth) := by
  induction depth with
  | zero =>
      intro n _
      exact yields_some_nested (.pure (covers_leaves rfl))
  | succ depth ih => exact lowersNested_lowerNode ih

theorem nested_lowerProgram {root : Concrete.Node} (h : root.InOrder s) :
    (lowerProgram s root).Nested := by
  have hterms := yields_lowerAll_nested (lowersNested_lowerWithin s maxDepth)
    (InRow.namedChildren h).inOrder .initial
  exact (hterms.covers h List.filter_sublist .sequence).2

end Lowering

/-! ## Positions of a text -/

namespace Parsed

open Concrete (Source)
open Syntax (Term Tree)

/-- In the tree of a text, the nodes at a position are the one that is found there and those above
it, as far as lines and columns fit into their words.  In any tree, whatever its ranges are, the
node that is found is at the position and nothing below it is. -/
theorem nodeAt?_innermost :
    (∀ (s : Source) (root : Concrete.Node), root.WellSpanned s → s.Addressable root.stop →
      ∀ (p : Position) (i : Nat), i < (ofSource s root).tree.size →
        ((ofSource s root).tree.includes i p = true ↔
          ∃ m, (ofSource s root).tree.nodeAt? p = some m ∧
            i ∈ m :: (ofSource s root).tree.ancestors m)) ∧
    ∀ (t : Tree) (p : Position),
      (t.nodeAt? p = none ↔ ∀ i ∈ t.root :: t.descendants t.root, t.includes i p = false) ∧
      ∀ m, t.nodeAt? p = some m →
        t.includes m p = true ∧ ∀ i ∈ t.descendants m, t.includes i p = false := by
  refine ⟨?_, ?_⟩
  · intro s root hspanned haddress p i hi
    -- ranges are kept in order from offsets to positions, by lowering, and by the layout
    have hinOrder : root.InOrder s := hspanned.inOrder haddress
    have hterm : (Lowering.lowerProgram s root).Nested := Lowering.nested_lowerProgram hinOrder
    rw [tree_ofSource] at hi ⊢
    have hnested := Term.nested_toTree hterm
    refine Tree.includes_iff_nodeAt? (Term.linked_toTree _) hnested ?_ hi
    intro j hj hnone
    exact (Term.parent?_toTree_eq_none_iff _ hj).1 hnone
  · intro t p
    refine ⟨Tree.nodeAt?_eq_none_iff, ?_⟩
    intro m hm
    exact Tree.includes_of_nodeAt? hm

/-- A call with a run of pairs and a block, on four lines. -/
def blockCallText : Source :=
  "f(a: 1, b: 2) \x7b |x|\n  é\n  x\n\x7d\n".toList

/-- The spans of that text. -/
def blockCall : Concrete.Node :=
  let firstPair : Concrete.Node := ⟨5, .pair, true, 2, 6, none,
    [⟨6, .hashKeySymbol, true, 2, 3, some .key, []⟩, ⟨7, .integer, true, 5, 6, some .value, []⟩]⟩
  let lastPair : Concrete.Node := ⟨8, .pair, true, 8, 12, none,
    [⟨9, .hashKeySymbol, true, 8, 9, some .key, []⟩, ⟨10, .integer, true, 11, 12, some .value, []⟩]⟩
  let name : Concrete.Node := ⟨2, .identifier, true, 0, 1, some .method, []⟩
  let arguments : Concrete.Node := ⟨3, .argumentList, true, 1, 13, some .arguments,
    [firstPair, lastPair]⟩
  let parameters : Concrete.Node := ⟨12, .other, true, 16, 19, some .parameters,
    [⟨13, .identifier, true, 17, 18, none, []⟩]⟩
  let body : Concrete.Node := ⟨14, .blockBody, true, 22, 28, some .body,
    [⟨15, .identifier, true, 22, 24, none, []⟩, ⟨16, .identifier, true, 27, 28, none, []⟩]⟩
  let block : Concrete.Node := ⟨11, .block, true, 14, 30, some .block, [parameters, body]⟩
  ⟨0, .other, true, 0, 31, none, [⟨1, .call, true, 0, 30, none, [name, arguments, block]⟩]⟩

/-- Between the two pairs there is their hash, and around it the call, the block and the text. -/
theorem blockCall_nodeAt?_innermost :
    let t := (ofSource blockCallText blockCall).tree
    t.nodeAt? ⟨1, 7⟩ = some 6 ∧
      ∀ i, i < t.size → (t.includes i ⟨1, 7⟩ = true ↔ i ∈ [6, 7, 13, 14]) := by
  intro t
  have hfound : t.nodeAt? ⟨1, 7⟩ = some 6 := by decide +kernel
  have habove : t.ancestors 6 = [7, 13, 14] := by
    have hcall : t.parent? 6 = some 7 := by decide +kernel
    have hblock : t.parent? 7 = some 13 := by decide +kernel
    have htext : t.parent? 13 = some 14 := by decide +kernel
    have hroot : t.parent? 14 = none := by decide +kernel
    rw [Tree.ancestors_of_parent hcall, Tree.ancestors_of_parent hblock,
      Tree.ancestors_of_parent htext, Tree.ancestors_of_no_parent hroot]
  refine ⟨hfound, ?_⟩
  intro i hi
  have hiff := nodeAt?_innermost.1 blockCallText blockCall (by decide +kernel) (by decide +kernel)
    ⟨1, 7⟩ i hi
  rw [hiff, hfound]
  constructor
  · rintro ⟨m, hm, hmem⟩
    cases hm
    rwa [habove] at hmem
  · intro hmem
    exact ⟨6, rfl, by rwa [habove]⟩

end Parsed
end RubyIndex
