import RubyIndex.Proofs.Lowering.Legible

/-!
# Lowered terms in reading order

From a legible tree, every rule of lowering makes a term with its ranges in reading order: first
that of the term, then those of its parts from the front to the back.

* `LowersReading`, a lowering that does so;
* `yields_lowerConstruct_reads`, the rule for each construct keeps to it;
* `Parsed.preorder_pairwise_leads`, so a walk along the tree of a text reads the text.
-/

namespace RubyIndex
namespace Lowering

open Concrete (Source Field)
open Syntax (Kind Child Leaf Term rangesAll)

/-- A lowering that turns nodes into terms in reading order. -/
def LowersReading (s : Source) (lower : Lower Lowering Term) : Prop :=
  ∀ n, n.Legible s → Yields (lower n) fun term => ∀ t ∈ term, Reads s n t

variable {s : Source} {lower : Lower Lowering Term} {n : Concrete.Node} {nodes : List Concrete.Node}

/-! ## Nodes below -/

theorem yields_lowerAll_reads (hlower : LowersReading s lower) (hrow : InRow s nodes)
    (hnodes : ∀ c ∈ nodes, c.Legible s) :
    Yields (lowerAll lower nodes) (ReadsRow s nodes) := by
  induction nodes with
  | nil => exact .pure .nil
  | cons n rest ih =>
      refine (hlower n (hnodes n List.mem_cons_self)).bind ?_
      intro term hterm
      have hrest := hrow.sublist (List.sublist_cons_self n rest)
      refine (ih hrest fun c hc => hnodes c (List.mem_cons_of_mem _ hc)).bind ?_
      intro terms hterms
      exact .pure (hterms.cons hterm hrow)

/-- The term of one node. -/
theorem LowersReading.along (hlower : LowersReading s lower) (hn : n.Legible s) :
    Yields (lower n) fun term => ReadsAlong [s.range n] (rangesAll term.toList) :=
  (hlower n hn).mono fun _ hterm => readsAlong_of_reads hterm

theorem yields_lowerField_reads (hlower : LowersReading s lower) (hn : n.Legible s)
    (role : Field) :
    Yields (lowerField lower n role) fun term =>
      ReadsAlong (fieldRegions s n role) (rangesAll term.toList) := by
  unfold lowerField lowerOption
  split
  · exact .pure .nil
  · rename_i c hc
    rw [fieldRegions_eq hc]
    exact hlower.along (hn.field hc)

theorem yields_lowerGeneric_reads (hlower : LowersReading s lower) (kind : Kind)
    (hn : n.Legible s) : Yields (lowerGeneric s lower kind n) (Reads s n) := by
  refine (yields_lowerAll_reads hlower (InRow.namedChildren hn.inOrder) hn.namedChildren).bind ?_
  intro terms hterms
  exact .pure (hterms.reads hn List.filter_sublist kind)

theorem yields_lowerStatements_reads (hlower : LowersReading s lower) (hrow : InRow s nodes)
    (hnodes : ∀ c ∈ nodes, c.Legible s) (owner : Concrete.Node) :
    Yields (lowerStatements s lower nodes owner) fun term =>
      ReadsAlong (nodes.map s.range) (rangesAll term.toList) := by
  rw [lowerStatements_eq]
  refine (yields_lowerAll_reads hlower hrow hnodes).bind ?_
  intro terms hterms
  exact .pure (hterms.joined hrow owner)

/-- A rule that always makes a term. -/
theorem yields_some_reads {step : Lowering Term} (h : Yields step (Reads s n)) :
    Yields (do let term ← step; pure (some term)) fun term => ∀ t ∈ term, Reads s n t := by
  refine h.bind ?_
  intro term hterm
  exact .pure (by simpa using hterm)

/-! ## Parameters -/

theorem yields_lowerDefaulted_reads (hlower : LowersReading s lower) (hn : n.Legible s) :
    Yields (lowerDefaulted s lower n) (Reads s n) := by
  refine .skip ?_
  intro _
  refine (yields_lowerField_reads hlower hn .value).bind ?_
  intro default hdefault
  have hreads := readsAlong_field hn hdefault
  exact .pure (reads_of_children hn (by simpa using hreads))

theorem yields_lowerCollecting_reads (kind : Kind) (hn : n.Legible s) :
    Yields (lowerCollecting s kind n) (Reads s n) := by
  unfold lowerCollecting
  split
  · refine .skip ?_
    intro _
    exact .pure (reads_leaves hn rfl)
  · exact .pure (reads_leaves hn rfl)

mutual

theorem yields_lowerParameter_reads (hlower : LowersReading s lower) :
    ∀ n : Concrete.Node, n.Legible s →
      Yields (lowerParameter s lower n) fun term => ∀ t ∈ term, Reads s n t
  | ⟨id, kind, named, start, stop, role, children⟩, hn => by
      unfold lowerParameter
      split
      · refine .skip ?_
        intro _
        exact yields_some_reads (.pure (reads_leaves hn rfl))
      · exact yields_some_reads (yields_lowerDefaulted_reads hlower hn)
      · exact yields_some_reads (yields_lowerDefaulted_reads hlower hn)
      · exact yields_some_reads (yields_lowerCollecting_reads _ hn)
      · exact yields_some_reads (yields_lowerCollecting_reads _ hn)
      · exact yields_some_reads (yields_lowerCollecting_reads _ hn)
      · exact yields_some_reads (.pure (reads_leaves hn rfl))
      · refine (yields_lowerParameterList_reads hlower children (InRow.children hn.inOrder)
          fun c hc => hn.child hc).bind ?_
        intro parts hparts
        exact yields_some_reads (.pure (hparts.reads hn (List.Sublist.refl _) _))
      · exact .pure (by simp)

theorem yields_lowerParameterList_reads (hlower : LowersReading s lower) :
    ∀ nodes : List Concrete.Node, InRow s nodes → (∀ c ∈ nodes, c.Legible s) →
      Yields (lowerParameterList s lower nodes) (ReadsRow s nodes)
  | [], _, _ => by
      unfold lowerParameterList
      exact .pure .nil
  | n :: rest, hrow, hnodes => by
      have hrest := yields_lowerParameterList_reads hlower rest
        (hrow.sublist (List.sublist_cons_self n rest)) fun c hc =>
          hnodes c (List.mem_cons_of_mem _ hc)
      unfold lowerParameterList
      split
      · refine (yields_lowerParameter_reads hlower n (hnodes n List.mem_cons_self)).bind ?_
        intro term hterm
        refine hrest.bind ?_
        intro terms hterms
        exact .pure (hterms.cons hterm hrow)
      · exact hrest.mono fun terms hterms => hterms.skip

end

/-- Parameters that were not written have no ranges. -/
theorem yields_lowerParameters_reads (hlower : LowersReading s lower) (hn : n.Legible s) :
    Yields (lowerParameters s lower (n.field? .parameters)) fun term =>
      ReadsAlong (fieldRegions s n .parameters) term.ranges := by
  cases hc : n.field? .parameters with
  | none => exact .pure .nil
  | some list =>
      have hlist := hn.field hc
      rw [fieldRegions_eq hc]
      refine (yields_lowerParameterList_reads hlower list.children (InRow.children hlist.inOrder)
        fun c hc => hlist.child hc).bind ?_
      intro terms hterms
      exact .pure (hterms.reads hlist (List.Sublist.refl _) _).2

/-! ## Declarations -/

theorem yields_lowerBody_reads (hlower : LowersReading s lower) (hn : n.Legible s)
    (header : List (Option Concrete.Node)) :
    Yields (lowerBody s lower n header) fun term =>
      ReadsAlong ((n.bodyNodes header).map s.range) (rangesAll term.toList) :=
  (yields_lowerStatements_reads hlower (InRow.bodyNodes hn.inOrder header)
    (hn.bodyNodes header) n).within false

/-- The expression a class is derived from stands in the child that holds it. -/
theorem yields_superclass_reads (hlower : LowersReading s lower) (hn : n.Legible s) :
    Yields (lowerOption lower (superclassNode? n)) fun term =>
      ReadsAlong (fieldRegions s n .superclass) (rangesAll term.toList) := by
  unfold superclassNode?
  cases hc : n.field? .superclass with
  | none => exact .pure .nil
  | some c =>
      have hbelow := hn.field hc
      rw [fieldRegions_eq hc, Option.bind_some]
      split
      · -- behind `<` there is a node of its own, with the expression in it
        cases he : c.namedChildren.head? with
        | none => exact .pure .nil
        | some e =>
            have hmem := Concrete.Node.mem_children_of_namedChildren (List.mem_of_mem_head? he)
            refine (hlower.along (hbelow.child hmem)).mono ?_
            intro term hterm
            exact hterm.into (by simpa using hbelow.inOrder.contains_child hmem)
      · exact hlower.along hbelow

theorem yields_lowerClass_reads (hlower : LowersReading s lower) (hn : n.Legible s)
    (hkind : n.kind = .classNode) : Yields (lowerClass s lower n) (Reads s n) := by
  refine (yields_lowerField_reads hlower hn .name).bind ?_
  intro name hname
  refine (yields_superclass_reads hlower hn).bind ?_
  intro superclass hsuperclass
  refine (yields_lowerBody_reads hlower hn _).bind ?_
  intro body hbody
  have hreads := readsAlong_headers_body hn (hn.inOrder.headerFirst hkind) (by decide) (by decide)
    (by rw [hkind]; decide) hname hsuperclass hbody
  exact .pure (reads_of_children hn (by simpa using hreads))

theorem yields_lowerModule_reads (hlower : LowersReading s lower) (hn : n.Legible s)
    (hkind : n.kind = .moduleNode) : Yields (lowerModule s lower n) (Reads s n) := by
  refine (yields_lowerField_reads hlower hn .name).bind ?_
  intro name hname
  refine (yields_lowerBody_reads hlower hn _).bind ?_
  intro body hbody
  have hreads := readsAlong_header_body hn (hn.inOrder.headerFirst hkind) (by decide) hname hbody
  exact .pure (reads_of_children hn (by simpa using hreads))

theorem yields_lowerSingletonClass_reads (hlower : LowersReading s lower) (hn : n.Legible s)
    (hkind : n.kind = .singletonClass) :
    Yields (lowerSingletonClass s lower n) (Reads s n) := by
  refine (yields_lowerField_reads hlower hn .value).bind ?_
  intro object hobject
  refine (yields_lowerBody_reads hlower hn _).bind ?_
  intro body hbody
  have hreads := readsAlong_header_body hn (hn.inOrder.headerFirst hkind) (by decide) hobject hbody
  exact .pure (reads_of_children hn (by simpa using hreads))

theorem yields_lowerCallable_reads (hlower : LowersReading s lower) (seesOuter : Bool)
    (hn : n.Legible s) (header : List (Option Concrete.Node)) :
    Yields (lowerCallable s lower seesOuter n header) fun parts =>
      ReadsAlong (fieldRegions s n .parameters) parts.1.ranges ∧
        ReadsAlong ((n.bodyNodes header).map s.range) (rangesAll parts.2.toList) := by
  refine Yields.within ?_ seesOuter
  refine (yields_lowerParameters_reads hlower hn).bind ?_
  intro parameters hparameters
  refine (yields_lowerStatements_reads hlower (InRow.bodyNodes hn.inOrder header)
    (hn.bodyNodes header) n).bind ?_
  intro body hbody
  exact .pure ⟨hparameters, hbody⟩

theorem yields_lowerMethod_reads (hlower : LowersReading s lower) (hn : n.Legible s)
    (hkind : n.kind = .method) : Yields (lowerMethod s lower n) (Reads s n) := by
  refine (yields_lowerCallable_reads hlower false hn _).bind ?_
  rintro ⟨parameters, body⟩ ⟨hparameters, hbody⟩
  have hreads := readsAlong_header_body hn (hn.inOrder.headerFirst hkind) (by decide) hparameters
    hbody
  exact .pure (reads_of_children hn (by simpa using hreads))

theorem yields_lowerSingletonMethod_reads (hlower : LowersReading s lower) (hn : n.Legible s)
    (hkind : n.kind = .singletonMethod) :
    Yields (lowerSingletonMethod s lower n) (Reads s n) := by
  refine (yields_lowerField_reads hlower hn .object).bind ?_
  intro object hobject
  refine (yields_lowerCallable_reads hlower false hn _).bind ?_
  rintro ⟨parameters, body⟩ ⟨hparameters, hbody⟩
  have hreads := readsAlong_headers_body hn (hn.inOrder.headerFirst hkind) (by decide) (by decide)
    (by rw [hkind]; decide) hobject hparameters hbody
  exact .pure (reads_of_children hn (by simpa using hreads))

/-! ## Arguments -/

/-- The hash of a run of pairs leads the pairs. -/
theorem yields_keywordHash_reads (hlower : LowersReading s lower) (hrow : InRow s nodes)
    (hnodes : ∀ c ∈ nodes, c.Legible s) :
    Yields (keywordHash s lower nodes) fun hash =>
      ReadsAlong (nodes.map s.range) (rangesAll hash.toList) := by
  unfold keywordHash
  split
  · rename_i first last hfirst hlast
    refine (yields_lowerAll_reads hlower hrow hnodes).bind ?_
    intro terms hterms
    have hreads := hterms.readsAlong.enclose_row hrow hfirst hlast
    exact .pure (by simpa [Term.ranges_eq] using hreads)
  · exact .pure .nil

theorem yields_lowerArgumentsAfter_reads (hlower : LowersReading s lower)
    (nodes : List Concrete.Node) : ∀ pairs, InRow s (pairs ++ nodes) →
      (∀ c ∈ pairs ++ nodes, c.Legible s) →
        Yields (lowerArgumentsAfter s lower pairs nodes) fun terms =>
          ReadsAlong ((pairs ++ nodes).map s.range) (rangesAll terms) := by
  induction nodes with
  | nil =>
      intro pairs hrow hnodes
      rw [List.append_nil] at hrow hnodes ⊢
      refine (yields_keywordHash_reads hlower hrow hnodes).bind ?_
      intro hash hhash
      exact .pure hhash
  | cons n rest ih =>
      intro pairs hrow hnodes
      unfold lowerArgumentsAfter
      split
      · -- the run goes on
        have hlonger := ih (pairs ++ [n])
        rw [List.append_assoc] at hlonger
        exact hlonger hrow hnodes
      · -- the run ends here, and another one may begin behind this node
        obtain ⟨hpairs, hrest⟩ := List.forall_mem_append.1 hnodes
        obtain ⟨hn, hlater⟩ := List.forall_mem_cons.1 hrest
        have hpairsRow := hrow.sublist (List.sublist_append_left pairs (n :: rest))
        have hrestRow := hrow.sublist (List.sublist_append_right pairs (n :: rest))
        obtain ⟨-, hordered, hbehind⟩ := List.pairwise_append.1 hrow.ordered
        refine (yields_keywordHash_reads hlower hpairsRow hpairs).bind ?_
        intro hash hhash
        refine (hlower.along hn).bind ?_
        intro term hterm
        refine (ih [] (hrestRow.sublist (List.sublist_cons_self n rest)) hlater).bind ?_
        intro terms hterms
        have hback := hterm.append hterms
          (by simpa using (List.pairwise_cons.1 hordered).1)
        have hall := hhash.append hback (by simpa using hbehind)
        exact .pure (by simpa using hall)

theorem yields_lowerArguments_reads (hlower : LowersReading s lower) (hn : n.Legible s) :
    Yields (lowerArguments s lower n) fun terms => ReadsAlong [s.range n] (rangesAll terms) :=
  (yields_lowerArgumentsAfter_reads hlower n.namedChildren [] (InRow.namedChildren hn.inOrder)
    hn.namedChildren).mono fun _ hterms => readsAlong_children hn List.filter_sublist hterms

/-! ## Calls and blocks -/

/-- A block behind what it is given to. -/
theorem yields_lowerBlock_reads (hlower : LowersReading s lower) {block outer : Concrete.Node}
    (houter : outer.Legible s) (hblock : block.Legible s)
    (hfirst : block.HeaderFirst (fun m => (s.range m).start) (fun m => (s.range m).stop)
      [.parameters])
    (hinside : (s.range outer).contains (s.range block) = true)
    {regions : List Range} {call : Option Term}
    (hcall : ReadsAlong regions (rangesAll call.toList))
    (hregions : ∀ a ∈ regions, (s.range outer).contains a = true)
    (hbefore : ∀ a ∈ regions, a.stop ≤ (s.range block).start) :
    Yields (lowerBlock s lower block call outer) (Reads s outer) := by
  refine (yields_lowerCallable_reads hlower true hblock _).bind ?_
  rintro ⟨parameters, body⟩ ⟨hparameters, hbody⟩
  have hown := readsAlong_header_body hblock hfirst (by decide) hparameters hbody
  have hall := (hcall.append hown (by simpa using hbefore)).into
    (List.forall_mem_append.2 ⟨hregions, by simpa using hinside⟩)
  exact .pure (reads_of_children houter (by simpa using hall))

theorem yields_lowerBlock_reads_alone (hlower : LowersReading s lower) (hn : n.Legible s)
    (hfirst : n.HeaderFirst (fun m => (s.range m).start) (fun m => (s.range m).stop)
      [.parameters]) :
    Yields (lowerBlock s lower n none n) (Reads s n) :=
  yields_lowerBlock_reads hlower hn hn hfirst (Range.contains_refl _)
    (ReadsAlong.nil : ReadsAlong [] (rangesAll (none : Option Term).toList)) (by simp) (by simp)

theorem callRange_start_le_stop (hn : n.Legible s) :
    (callRange s n).start ≤ (callRange s n).stop := by
  by_cases hpart : ∃ role ∈ [Field.receiver, .method, .arguments], ∃ part, n.field? role = some part
  · obtain ⟨role, hrole, part, hpart⟩ := hpart
    have hchild := Concrete.Node.mem_children_of_field? hpart
    calc (callRange s n).start
        = (s.range n).start := callRange_start s n
      _ ≤ (s.range part).start := (hn.inOrder.arranged.inside part hchild).1
      _ ≤ (s.range part).stop := (hn.child hchild).start_le_stop
      _ ≤ (callRange s n).stop := stop_le_callRange hrole hpart
  · -- a call without parts ends where it begins
    have hnone : ∀ role ∈ [Field.receiver, .method, .arguments], n.field? role = none := by
      intro role hrole
      rw [Option.eq_none_iff_forall_ne_some]
      exact fun part hfield => hpart ⟨role, hrole, part, hfield⟩
    simp [callRange, hnone]

/-- A call of which the receiver and the arguments are known, with its block or without one. -/
theorem yields_call_or_block_reads (hlower : LowersReading s lower) (hn : n.Legible s)
    (hkind : n.kind = .call) {kind : Kind} {receiver : Option Term} {name : String}
    {arguments : List Term}
    (hreceiver : ReadsAlong (fieldRegions s n .receiver) (rangesAll receiver.toList))
    (harguments : ReadsAlong (fieldRegions s n .arguments) (rangesAll arguments)) :
    Yields
      (match n.field? .block with
        | none => pure (documentable s kind
            (.ofOption receiver :: symbol name :: arguments.map .node) n)
        | some block =>
            lowerBlock s lower block
              (some ⟨kind, .ofOption receiver :: symbol name :: arguments.map .node,
                some (callRange s n), some (s.startRow n)⟩) n)
      (Reads s n) := by
  have hpair : (Field.receiver, Field.arguments) ∈ Concrete.Node.rolePairs n.kind := by
    rw [hkind]
    decide
  split
  · have hreads := readsAlong_fields hn hpair hreceiver harguments
    exact .pure (reads_of_children hn (by simpa using hreads))
  · rename_i block hblock
    obtain ⟨hbefore, hfirst⟩ := hn.inOrder.arranged.block_last hkind block hblock
    have hchild := Concrete.Node.mem_children_of_field? hblock
    have hspan := hn.inOrder.contains_child hchild
    -- the call holds its parts, and the block comes behind them
    have hparts : ReadsAlong [callRange s n] (rangesAll (receiver.toList ++ arguments)) := by
      rw [Syntax.rangesAll_append]
      refine (hreceiver.append harguments (fieldRegions_before hn hpair)).into ?_
      exact List.forall_mem_append.2 ⟨fieldRegions_inside_callRange hn.inOrder (by decide),
        fieldRegions_inside_callRange hn.inOrder (by decide)⟩
    have hcall := hparts.close (callRange_start_le_stop hn)
    have hends : (callRange s n).stop ≤ (s.range block).start :=
      callRange_stop_le (Range.contains_iff.1 hspan).1 hbefore
    exact yields_lowerBlock_reads hlower hn (hn.child hchild) hfirst hspan
      (by simpa [Term.ranges_eq] using hcall) (by simpa using callRange_inside hn.inOrder)
      (by simpa using hends)

theorem yields_lowerCall_reads (hlower : LowersReading s lower) (hn : n.Legible s)
    (hkind : n.kind = .call) : Yields (lowerCall s lower n) (Reads s n) := by
  refine (yields_lowerField_reads hlower hn .receiver).bind ?_
  intro receiver hreceiver
  dsimp only
  split
  · rename_i list hlist
    refine (yields_lowerArguments_reads hlower (hn.field hlist)).bind ?_
    intro arguments harguments
    rw [← fieldRegions_eq hlist] at harguments
    exact yields_call_or_block_reads hlower hn hkind hreceiver harguments
  · exact yields_call_or_block_reads hlower hn hkind hreceiver .nil

theorem yields_lowerIdentifier_reads (hn : n.Legible s) :
    Yields (lowerIdentifier s n) (Reads s n) := by
  refine .skip ?_
  intro scopes
  split
  · exact .pure (reads_leaves hn rfl)
  · exact .pure (reads_leaves hn rfl)

/-! ## Operators -/

theorem yields_lowerBinary_reads (hlower : LowersReading s lower) (hn : n.Legible s)
    (hkind : n.kind = .binary) : Yields (lowerBinary s lower n) (Reads s n) := by
  unfold lowerBinary
  split
  · rename_i left operator right hleft _ hright
    refine (hlower.along (hn.field hleft)).bind ?_
    intro a ha
    refine (hlower.along (hn.field hright)).bind ?_
    intro b hb
    rw [← fieldRegions_eq hleft] at ha
    rw [← fieldRegions_eq hright] at hb
    have hreads := readsAlong_fields hn (by rw [hkind]; decide) ha hb
    dsimp only
    split
    · exact .pure (reads_of_children hn (by simpa using hreads))
    · exact .pure (reads_of_children hn (by simpa using hreads))
  · exact yields_lowerGeneric_reads hlower _ hn

theorem yields_lowerUnary_reads (hlower : LowersReading s lower) (hn : n.Legible s) :
    Yields (lowerUnary s lower n) (Reads s n) := by
  unfold lowerUnary
  split
  · rename_i name operand _ hoperand
    refine (hlower.along (hn.field hoperand)).bind ?_
    intro term hterm
    rw [← fieldRegions_eq hoperand] at hterm
    have hreads := readsAlong_field hn hterm
    exact .pure (reads_of_children hn (by simpa using hreads))
  · exact yields_lowerGeneric_reads hlower _ hn

/-- The object of an element reference stands before the indices. -/
theorem yields_lowerElement_reads (hlower : LowersReading s lower) (hn : n.Legible s)
    (hkind : n.kind = .elementReference) :
    Yields (lowerElement lower n) fun parts =>
      ReadsAlong [s.range n] (rangesAll parts.1.toList ++ rangesAll parts.2) := by
  have hsub : List.Sublist (n.namedChildrenExcept [n.field? .object]) n.children :=
    List.filter_sublist.trans List.filter_sublist
  have hbefore : ∀ a ∈ fieldRegions s n .object,
      ∀ b ∈ (n.namedChildrenExcept [n.field? .object]).map s.range, a.stop ≤ b.start := by
    intro a ha b hb
    obtain ⟨object, hobject, rfl⟩ := mem_fieldRegions ha
    obtain ⟨index, hindex, rfl⟩ := List.mem_map.1 hb
    exact hn.forward.object_first hkind object hobject index hindex
  refine (yields_lowerField_reads hlower hn .object).bind ?_
  intro object hobject
  refine (yields_lowerAll_reads hlower ((InRow.children hn.inOrder).sublist hsub)
    fun c hc => hn.child (hsub.subset hc)).bind ?_
  intro indices hindices
  refine .pure ((hobject.append hindices.readsAlong hbefore).into ?_)
  refine List.forall_mem_append.2 ⟨fieldRegions_inside hn.inOrder .object, ?_⟩
  intro a ha
  obtain ⟨index, hindex, rfl⟩ := List.mem_map.1 ha
  exact hn.inOrder.contains_child (hsub.subset hindex)

theorem yields_lowerElementReference_reads (hlower : LowersReading s lower) (hn : n.Legible s)
    (hkind : n.kind = .elementReference) :
    Yields (lowerElementReference s lower n) (Reads s n) := by
  refine (yields_lowerElement_reads hlower hn hkind).bind ?_
  rintro ⟨object, indices⟩ hparts
  exact .pure (reads_of_children hn (by simpa using hparts))

/-! ## Constants and assignments -/

theorem yields_lowerScope_reads (hlower : LowersReading s lower) (hn : n.Legible s) :
    Yields (lowerScope lower n) fun term =>
      ReadsAlong (fieldRegions s n .scope) (rangesAll term.toList) := by
  unfold lowerScope
  split
  · rename_i scope hscope
    rw [fieldRegions_eq hscope]
    exact hlower.along (hn.field hscope)
  · -- the top level, which has no range
    exact .pure .nil

theorem yields_lowerScopeResolution_reads (hlower : LowersReading s lower) (hn : n.Legible s) :
    Yields (lowerScopeResolution s lower n) (Reads s n) := by
  refine (yields_lowerScope_reads hlower hn).bind ?_
  intro scope hscope
  have hreads := readsAlong_field hn hscope
  exact .pure (reads_of_children hn (by simpa using hreads))

theorem yields_lowerValue_reads (hlower : LowersReading s lower) (hn : n.Legible s) :
    Yields (lowerValue s lower (n.field? .right)) fun term =>
      ReadsAlong (fieldRegions s n .right) (rangesAll term.toList) := by
  unfold lowerValue
  split
  · exact .pure .nil
  · rename_i value hvalue
    have hbelow := hn.field hvalue
    rw [fieldRegions_eq hvalue]
    split
    · exact (yields_some_reads (yields_lowerGeneric_reads hlower _ hbelow)).mono
        fun _ hterm => readsAlong_of_reads hterm
    · exact hlower.along hbelow

theorem yields_lowerLocalAssignment_reads (hlower : LowersReading s lower) (hn : n.Legible s)
    (left : Concrete.Node) : Yields (lowerLocalAssignment s lower left n) (Reads s n) := by
  refine .skip ?_
  intro _
  refine (yields_lowerValue_reads hlower hn).bind ?_
  intro value hvalue
  have hreads := readsAlong_field hn hvalue
  exact .pure (reads_of_children hn (by simpa using hreads))

theorem yields_lowerVariableAssignment_reads (hlower : LowersReading s lower) (hn : n.Legible s)
    (kind : Kind) (left : Concrete.Node) :
    Yields (lowerVariableAssignment s lower kind left n) (Reads s n) := by
  refine (yields_lowerValue_reads hlower hn).bind ?_
  intro value hvalue
  have hreads := readsAlong_field hn hvalue
  exact .pure (reads_of_children hn (by simpa using hreads))

theorem yields_lowerAssignmentTo_reads (hlower : LowersReading s lower) (hn : n.Legible s)
    (hkind : n.kind = .assignment) {left : Concrete.Node} (hleft : n.field? .left = some left) :
    Yields (lowerAssignmentTo s lower left n) (Reads s n) := by
  have hbelow := hn.field hleft
  have hright := yields_lowerValue_reads hlower hn
  -- whatever is made of the target stands in it, and so before the value
  have hsides : ∀ {target value : List Range}, ReadsAlong [s.range left] target →
      ReadsAlong (fieldRegions s n .right) value → ReadsAlong [s.range n] (target ++ value) := by
    intro target value htarget hvalue
    rw [← fieldRegions_eq hleft] at htarget
    exact readsAlong_fields hn (by rw [hkind]; decide) htarget hvalue
  unfold lowerAssignmentTo
  split
  · exact yields_lowerLocalAssignment_reads hlower hn left
  · exact yields_lowerVariableAssignment_reads hlower hn _ left
  · exact yields_lowerVariableAssignment_reads hlower hn _ left
  · exact yields_lowerVariableAssignment_reads hlower hn _ left
  · refine hright.bind ?_
    intro value hvalue
    have hreads := readsAlong_field hn hvalue
    exact .pure (reads_of_children hn (by simpa using hreads))
  · refine (yields_lowerScope_reads hlower hbelow).bind ?_
    intro scope hscope
    refine hright.bind ?_
    intro value hvalue
    have hreads := hsides (readsAlong_field hbelow hscope) hvalue
    exact .pure (reads_of_children hn (by simpa using hreads))
  · refine (yields_lowerField_reads hlower hbelow .receiver).bind ?_
    intro receiver hreceiver
    refine hright.bind ?_
    intro value hvalue
    have hreads := hsides (readsAlong_field hbelow hreceiver) hvalue
    exact .pure (reads_of_children hn (by simpa using hreads))
  · rename_i helement
    refine (yields_lowerElement_reads hlower hbelow helement).bind ?_
    rintro ⟨object, indices⟩ hparts
    refine hright.bind ?_
    intro value hvalue
    have hreads := hsides hparts hvalue
    exact .pure (reads_of_children hn (by simpa using hreads))
  · refine .skip ?_
    intro _
    refine (hlower.along hbelow).bind ?_
    intro target htarget
    refine hright.bind ?_
    intro value hvalue
    have hreads := hsides htarget hvalue
    exact .pure (reads_of_children hn (by simpa using hreads))

theorem yields_lowerAssignment_reads (hlower : LowersReading s lower) (hn : n.Legible s)
    (hkind : n.kind = .assignment) : Yields (lowerAssignment s lower n) (Reads s n) := by
  unfold lowerAssignment
  split
  · rename_i left hleft
    exact yields_lowerAssignmentTo_reads hlower hn hkind hleft
  · exact yields_lowerGeneric_reads hlower _ hn

theorem yields_lowerOperatorAssignment_reads (hlower : LowersReading s lower)
    (hn : n.Legible s) : Yields (lowerOperatorAssignment s lower n) (Reads s n) := by
  unfold lowerOperatorAssignment
  split
  · split
    · exact yields_lowerLocalAssignment_reads hlower hn _
    · refine .skip ?_
      intro _
      exact yields_lowerGeneric_reads hlower _ hn
  · exact yields_lowerGeneric_reads hlower _ hn

/-! ## Texts and other constructs -/

theorem lowersReading_lowerPart (hlower : LowersReading s lower) :
    LowersReading s (lowerPart s lower) := by
  intro n hn
  unfold lowerPart
  split
  · exact hlower n hn
  · exact yields_some_reads (.pure (reads_leaves hn rfl))

theorem yields_lowerText_reads (hlower : LowersReading s lower) (plain dynamic : Kind)
    (hn : n.Legible s) : Yields (lowerText s lower plain dynamic n) (Reads s n) := by
  unfold lowerText
  split
  · refine (yields_lowerAll_reads (lowersReading_lowerPart hlower)
      (InRow.namedChildren hn.inOrder) hn.namedChildren).bind ?_
    intro parts hparts
    exact .pure (hparts.reads hn List.filter_sublist dynamic)
  · exact .pure (reads_leaves hn rfl)

theorem yields_lowerPair_reads (hlower : LowersReading s lower) (hn : n.Legible s)
    (hkind : n.kind = .pair) : Yields (lowerPair s lower n) (Reads s n) := by
  refine (yields_lowerField_reads hlower hn .key).bind ?_
  intro key hkey
  refine (yields_lowerField_reads hlower hn .value).bind ?_
  intro value hvalue
  have hreads := readsAlong_fields hn (by rw [hkind]; decide) hkey hvalue
  exact .pure (reads_of_children hn (by simpa using hreads))

theorem yields_lowerRange_reads (hlower : LowersReading s lower) (hn : n.Legible s)
    (hkind : n.kind = .range) : Yields (lowerRange s lower n) (Reads s n) := by
  refine (yields_lowerField_reads hlower hn .first).bind ?_
  intro first hfirst
  refine (yields_lowerField_reads hlower hn .last).bind ?_
  intro last hlast
  have hreads := readsAlong_fields hn (by rw [hkind]; decide) hfirst hlast
  exact .pure (reads_of_children hn (by simpa using hreads))

theorem yields_lowerReturned_reads (hlower : LowersReading s lower) (hrow : InRow s nodes)
    (hnodes : ∀ c ∈ nodes, c.Legible s) :
    Yields (lowerReturned s lower nodes) fun terms =>
      ReadsAlong (nodes.map s.range) (rangesAll terms) := by
  induction nodes with
  | nil => exact .pure .nil
  | cons n rest ih =>
      obtain ⟨hn, hlater⟩ := List.forall_mem_cons.1 hnodes
      -- what both sorts of arguments end with
      have hrest : ∀ values, ReadsAlong [s.range n] (rangesAll values) → Yields
          (do let terms ← lowerReturned s lower rest; pure (values ++ terms))
          fun terms => ReadsAlong ((n :: rest).map s.range) (rangesAll terms) := by
        intro values hvalues
        refine (ih (hrow.sublist (List.sublist_cons_self n rest)) hlater).bind ?_
        intro terms hterms
        have hall := hvalues.append hterms (by simpa using (List.pairwise_cons.1 hrow.ordered).1)
        exact .pure (by simpa using hall)
      unfold lowerReturned
      dsimp only
      split
      · refine (yields_lowerArguments_reads hlower hn).bind ?_
        intro values hvalues
        exact hrest values hvalues
      · refine (hlower.along hn).bind ?_
        intro term hterm
        exact hrest term.toList hterm

theorem yields_lowerReturn_reads (hlower : LowersReading s lower) (hn : n.Legible s) :
    Yields (lowerReturn s lower n) (Reads s n) := by
  refine (yields_lowerReturned_reads hlower (InRow.namedChildren hn.inOrder)
    hn.namedChildren).bind ?_
  intro terms hterms
  have hreads := readsAlong_children hn List.filter_sublist hterms
  exact .pure (reads_of_children hn (by simpa using hreads))

theorem yields_lowerDeclaring_reads (hlower : LowersReading s lower)
    (target : Option Concrete.Node) (hn : n.Legible s) :
    Yields (lowerDeclaring s lower target n) (Reads s n) := by
  refine .skip ?_
  intro _
  exact yields_lowerGeneric_reads hlower _ hn

/-! ## Programs -/

theorem yields_lowerConstruct_reads (hlower : LowersReading s lower) (hn : n.Legible s) :
    Yields (lowerConstruct s lower n) (Reads s n) := by
  unfold lowerConstruct
  cases hkind : n.kind with
  | classNode => exact yields_lowerClass_reads hlower hn hkind
  | moduleNode => exact yields_lowerModule_reads hlower hn hkind
  | singletonClass => exact yields_lowerSingletonClass_reads hlower hn hkind
  | method => exact yields_lowerMethod_reads hlower hn hkind
  | singletonMethod => exact yields_lowerSingletonMethod_reads hlower hn hkind
  | call => exact yields_lowerCall_reads hlower hn hkind
  | block => exact yields_lowerBlock_reads_alone hlower hn (hn.inOrder.headerFirst hkind)
  | doBlock => exact yields_lowerBlock_reads_alone hlower hn (hn.inOrder.headerFirst hkind)
  | lambda => exact (yields_lowerGeneric_reads hlower _ hn).within true
  | identifier => exact yields_lowerIdentifier_reads hn
  | scopeResolution => exact yields_lowerScopeResolution_reads hlower hn
  | assignment => exact yields_lowerAssignment_reads hlower hn hkind
  | operatorAssignment => exact yields_lowerOperatorAssignment_reads hlower hn
  | string => exact yields_lowerText_reads hlower _ _ hn
  | bareString => exact yields_lowerText_reads hlower _ _ hn
  | subshell => exact yields_lowerText_reads hlower _ _ hn
  | delimitedSymbol => exact yields_lowerText_reads hlower _ _ hn
  | bareSymbol => exact yields_lowerText_reads hlower _ _ hn
  | pair => exact yields_lowerPair_reads hlower hn hkind
  | range => exact yields_lowerRange_reads hlower hn hkind
  | returnNode => exact yields_lowerReturn_reads hlower hn
  | binary => exact yields_lowerBinary_reads hlower hn hkind
  | unary => exact yields_lowerUnary_reads hlower hn
  | elementReference => exact yields_lowerElementReference_reads hlower hn hkind
  | exceptionVariable => exact yields_lowerDeclaring_reads hlower _ hn
  | forNode => exact yields_lowerDeclaring_reads hlower _ hn
  | constant | selfNode | nilNode | trueNode | falseNode | integer | float | heredocBeginning
  | simpleSymbol | hashKeySymbol | instanceVariable | classVariable | globalVariable =>
      exact .pure (reads_leaves hn rfl)
  | _ =>
      -- constructs over all there is below them, of a kind of their own or of none
      exact yields_lowerGeneric_reads hlower _ hn

theorem lowersReading_lowerNode (hlower : LowersReading s lower) :
    LowersReading s (lowerNode s lower) := by
  intro n hn
  unfold lowerNode
  split
  · exact .pure (by simp)
  · exact .pure (by simp)
  · exact .pure (by simp)
  · exact yields_some_reads (yields_lowerConstruct_reads hlower hn)

theorem lowersReading_lowerWithin (s : Source) (depth : Nat) :
    LowersReading s (lowerWithin s depth) := by
  induction depth with
  | zero =>
      intro n hn
      exact yields_some_reads (.pure (reads_leaves hn rfl))
  | succ depth ih => exact lowersReading_lowerNode ih

theorem reads_lowerProgram {root : Concrete.Node} (h : root.Legible s) :
    Reads s root (lowerProgram s root) :=
  (yields_lowerAll_reads (lowersReading_lowerWithin s maxDepth) (InRow.namedChildren h.inOrder)
    h.namedChildren .initial).reads h List.filter_sublist .sequence

end Lowering

/-- A walk along the tree of a text reads the text: of two nodes on the way, the range of the first
holds that of the second or ends before it. -/
theorem Parsed.preorder_pairwise_leads {s : Concrete.Source} {root : Concrete.Node}
    (h : root.Legible s) :
    let t := (Parsed.ofSource s root).tree
    (t.preorder t.root).Pairwise fun i j =>
      ∀ a, t.range? i = some a → ∀ b, t.range? j = some b → a.Leads b := by
  rw [tree_ofSource]
  have hordered := (Lowering.reads_lowerProgram h).2.ordered
  rw [← Syntax.Term.filterMap_range?_preorder] at hordered
  exact List.pairwise_filterMap.1 hordered

/-- No node of a text ends before it begins. -/
theorem Parsed.range_start_le_stop {s : Concrete.Source} {root : Concrete.Node}
    (h : root.Legible s) :
    let t := (Parsed.ofSource s root).tree
    ∀ i ∈ t.preorder t.root, ∀ r, t.range? i = some r → r.start ≤ r.stop := by
  rw [tree_ofSource]
  intro t i hi r hr
  have hinside := (Lowering.reads_lowerProgram h).2.inside
  rw [← Syntax.Term.filterMap_range?_preorder] at hinside
  exact (hinside r (List.mem_filterMap.2 ⟨i, hi, hr⟩)).1

end RubyIndex
