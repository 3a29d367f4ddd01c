import RubyIndex.Proofs.Lowering.Nested
import RubyIndex.Proofs.Syntax.Reading

/-!
# Legible texts

Where a grammar names the parts of a construct by their roles, lowering comes to them in an order of
its own.  That order is the one of the text, if receivers stand before arguments, left sides before
right ones and so on.  This file says which parts have to be in order, and what it means that the
ranges of terms are read along some nodes.

* `Concrete.Node.Forward`, the parts of one node that have to be in the order of the rules, and
  `Concrete.Node.Legible`, the same for a whole tree by its positions;
* `ReadsAlong`, ranges in reading order along regions of a text;
* `Reads`, `ReadsRow`, terms that are read along a node or a row of nodes;
* `readsAlong_fields`, `readsAlong_header_body`, the parts of a construct.
-/

namespace RubyIndex

/-! ## Parts in the order of the rules -/

namespace Concrete.Node

/-- The roles of which the second is looked at after the first. -/
def rolePairs : Kind → List (Field × Field)
  | .classNode => [(.name, .superclass)]
  | .singletonMethod => [(.object, .parameters)]
  | .call => [(.receiver, .arguments)]
  | .assignment | .binary => [(.left, .right)]
  | .pair => [(.key, .value)]
  | .range => [(.first, .last)]
  | _ => []

section Forward

variable {α : Type} [LE α] (lo hi : Node → α)

/-- The parts of a node that are looked at by their roles stand in that order. -/
structure Forward (n : Node) : Prop where
  pairs : ∀ roles ∈ rolePairs n.kind, ∀ a ∈ n.field? roles.1, ∀ b ∈ n.field? roles.2, hi a ≤ lo b
  object_first : n.kind = .elementReference → ∀ a ∈ n.field? .object,
    ∀ b ∈ n.namedChildrenExcept [n.field? .object], hi a ≤ lo b

variable [DecidableLE α]

instance (n : Node) : Decidable (n.Forward lo hi) :=
  decidable_of_iff
    ((∀ roles ∈ rolePairs n.kind, ∀ a ∈ n.field? roles.1, ∀ b ∈ n.field? roles.2, hi a ≤ lo b) ∧
      (n.kind = .elementReference → ∀ a ∈ n.field? .object,
        ∀ b ∈ n.namedChildrenExcept [n.field? .object], hi a ≤ lo b))
    ⟨fun ⟨h₁, h₂⟩ => ⟨h₁, h₂⟩, fun ⟨h₁, h₂⟩ => ⟨h₁, h₂⟩⟩

end Forward

/-- All nodes of a tree have their parts in order, by their offsets. -/
def AllForward (root : Node) : Prop :=
  ∀ n ∈ root.all, n.Forward Node.start Node.stop

instance (root : Node) : Decidable root.AllForward :=
  inferInstanceAs (Decidable (∀ n ∈ root.all, n.Forward Node.start Node.stop))

/-- All nodes of a tree are arranged and have their parts in order, by their positions in a text. -/
def Legible (s : Source) (root : Node) : Prop :=
  ∀ n ∈ root.all, n.Arranged (fun m => (s.range m).start) (fun m => (s.range m).stop) ∧
    n.Forward (fun m => (s.range m).start) fun m => (s.range m).stop

variable {s : Source} {n c : Node}

theorem WellSpanned.legible {root : Node} (h : root.WellSpanned s) (hforward : root.AllForward)
    (haddress : s.Addressable root.stop) : root.Legible s := by
  -- one node that ends before another begins does so by positions too
  have hbefore : ∀ {a b : Node}, a ∈ root.all → b ∈ root.all → a.stop ≤ b.start →
      (s.range a).stop ≤ (s.range b).start := by
    intro a b ha hb hab
    have hstop := Nat.le_trans (h b hb).2.2.lo_le_hi (h.stop_le hb)
    exact Source.position_le (h a ha).2.1 (h b hb).1 (haddress.of_le hstop) hab
  have hchild : ∀ {m a : Node}, m ∈ root.all → a ∈ m.children → a ∈ root.all :=
    fun hm ha => mem_all_of_mem_children hm ha
  intro m hm
  refine ⟨h.inOrder haddress m hm, ?_, ?_⟩
  · intro roles hroles a ha b hb
    exact hbefore (hchild hm (mem_children_of_field? ha)) (hchild hm (mem_children_of_field? hb))
      ((hforward m hm).pairs roles hroles a ha b hb)
  · intro hkind a ha b hb
    exact hbefore (hchild hm (mem_children_of_field? ha))
      (hchild hm (mem_children_of_namedChildren (List.mem_filter.1 hb).1))
      ((hforward m hm).object_first hkind a ha b hb)

namespace Legible

theorem inOrder (h : n.Legible s) : n.InOrder s :=
  fun m hm => (h m hm).1

theorem forward (h : n.Legible s) :
    n.Forward (fun m => (s.range m).start) fun m => (s.range m).stop :=
  (h n (mem_all_self n)).2

theorem child (h : n.Legible s) (hc : c ∈ n.children) : c.Legible s :=
  fun m hm => h m (mem_all_of_child hc hm)

theorem field (h : n.Legible s) {role : Field} (hc : n.field? role = some c) : c.Legible s :=
  h.child (mem_children_of_field? hc)

theorem namedChildren (h : n.Legible s) : ∀ c ∈ n.namedChildren, c.Legible s :=
  fun _ hc => h.child (mem_children_of_namedChildren hc)

theorem bodyNodes (h : n.Legible s) (header : List (Option Node)) :
    ∀ c ∈ n.bodyNodes header, c.Legible s := by
  intro c hc
  rcases mem_bodyNodes hc with hchild | ⟨body, hbody, hchild⟩
  · exact h.child hchild
  · exact (h.child hbody).child hchild

theorem start_le_stop (h : n.Legible s) : (s.range n).start ≤ (s.range n).stop :=
  h.inOrder.arranged.lo_le_hi

end Legible
end Concrete.Node

namespace Lowering

open Concrete (Source Field)
open Syntax (Kind Child Leaf Term rangesAll)

/-! ## Ranges along regions -/

/-- Ranges in reading order, each of which reaches from somewhere in a region to somewhere in a
region. -/
structure ReadsAlong (regions ranges : List Range) : Prop where
  ordered : ranges.Pairwise Range.Leads
  inside : ∀ r ∈ ranges, r.start ≤ r.stop ∧
    ∃ a ∈ regions, ∃ z ∈ regions, a.start ≤ r.start ∧ r.stop ≤ z.stop

namespace ReadsAlong

variable {regions regions' ranges ranges' : List Range} {region : Range}

theorem nil : ReadsAlong regions [] where
  ordered := .nil
  inside := by simp

/-- Ranges along regions, and others along regions behind these. -/
theorem append (h : ReadsAlong regions ranges) (h' : ReadsAlong regions' ranges')
    (hbefore : ∀ a ∈ regions, ∀ b ∈ regions', a.stop ≤ b.start) :
    ReadsAlong (regions ++ regions') (ranges ++ ranges') where
  ordered := by
    refine List.pairwise_append.2 ⟨h.ordered, h'.ordered, ?_⟩
    intro r hr r' hr'
    obtain ⟨-, _, -, z, hz, -, hstop⟩ := h.inside r hr
    obtain ⟨-, a, ha, _, -, hstart, -⟩ := h'.inside r' hr'
    exact Or.inr (le_trans hstop (le_trans (hbefore z hz a ha) hstart))
  inside := by
    intro r hr
    rcases List.mem_append.1 hr with hr | hr
    · obtain ⟨hspan, a, ha, z, hz, hends⟩ := h.inside r hr
      exact ⟨hspan, a, List.mem_append_left _ ha, z, List.mem_append_left _ hz, hends⟩
    · obtain ⟨hspan, a, ha, z, hz, hends⟩ := h'.inside r hr
      exact ⟨hspan, a, List.mem_append_right _ ha, z, List.mem_append_right _ hz, hends⟩

/-- More or larger regions will do as well. -/
theorem widen (h : ReadsAlong regions ranges)
    (hregions : ∀ a ∈ regions, ∃ b ∈ regions', b.contains a = true) :
    ReadsAlong regions' ranges where
  ordered := h.ordered
  inside := by
    intro r hr
    obtain ⟨hspan, a, ha, z, hz, hstart, hstop⟩ := h.inside r hr
    obtain ⟨b, hb, hba⟩ := hregions a ha
    obtain ⟨y, hy, hyz⟩ := hregions z hz
    exact ⟨hspan, b, hb, y, hy, le_trans (Range.contains_iff.1 hba).1 hstart,
      le_trans hstop (Range.contains_iff.1 hyz).2⟩

theorem into (h : ReadsAlong regions ranges)
    (hregions : ∀ a ∈ regions, region.contains a = true) : ReadsAlong [region] ranges :=
  h.widen fun a ha => ⟨region, List.mem_singleton.2 rfl, hregions a ha⟩

/-- What reaches from the first region to the last leads all ranges along them. -/
theorem enclose (h : ReadsAlong regions ranges) {a z : Range} (ha : a ∈ regions)
    (hz : z ∈ regions) (hspan : a.start ≤ z.stop) (hfirst : ∀ b ∈ regions, a.start ≤ b.start)
    (hlast : ∀ b ∈ regions, b.stop ≤ z.stop) :
    ReadsAlong regions (⟨a.start, z.stop⟩ :: ranges) where
  ordered := by
    refine List.pairwise_cons.2 ⟨?_, h.ordered⟩
    intro r hr
    obtain ⟨-, b, hb, y, hy, hstart, hstop⟩ := h.inside r hr
    exact Or.inl (Range.contains_iff.2
      ⟨le_trans (hfirst b hb) hstart, le_trans hstop (hlast y hy)⟩)
  inside := by
    refine List.forall_mem_cons.2 ⟨?_, h.inside⟩
    exact ⟨hspan, a, ha, z, hz, le_refl _, le_refl _⟩

/-- A region leads all ranges in it. -/
theorem close (h : ReadsAlong [region] ranges) (hspan : region.start ≤ region.stop) :
    ReadsAlong [region] (region :: ranges) :=
  h.enclose List.mem_cons_self List.mem_cons_self hspan (by simp) (by simp)

end ReadsAlong

/-! ## Terms on nodes -/

/-- A term with the range of a node, and with its ranges in reading order. -/
def Reads (s : Source) (n : Concrete.Node) (t : Term) : Prop :=
  t.range = some (s.range n) ∧ ReadsAlong [s.range n] t.ranges

/-- Terms with the ranges of some of the nodes, in reading order along these. -/
def ReadsRow (s : Source) (nodes : List Concrete.Node) (terms : List Term) : Prop :=
  ∃ kept, List.Sublist kept nodes ∧ terms.map Term.range = kept.map (fun n => some (s.range n)) ∧
    ReadsAlong (kept.map s.range) (rangesAll terms)

variable {s : Source} {n c : Concrete.Node} {nodes : List Concrete.Node} {terms : List Term}

/-- A term over what stands in its node. -/
theorem reads_of_children {kind : Kind} {children : List (Child Term)} {row : Option Nat}
    (hn : n.Legible s) (h : ReadsAlong [s.range n] (rangesAll (Child.nodes children))) :
    Reads s n ⟨kind, children, some (s.range n), row⟩ := by
  refine ⟨rfl, ?_⟩
  rw [Term.ranges_eq]
  exact h.close hn.start_le_stop

/-- A term with nothing but leaves. -/
theorem reads_leaves {kind : Kind} {children : List (Child Term)} {row : Option Nat}
    (hn : n.Legible s) (h : Child.nodes children = []) :
    Reads s n ⟨kind, children, some (s.range n), row⟩ :=
  reads_of_children hn (by rw [h]; exact .nil)

theorem readsAlong_of_reads {term : Option Term} (h : ∀ t ∈ term, Reads s n t) :
    ReadsAlong [s.range n] (rangesAll term.toList) := by
  cases term with
  | none => exact .nil
  | some t => simpa using (h t rfl).2

/-- What stands along children stands in the node. -/
theorem readsAlong_children {ranges : List Range} (hn : n.Legible s)
    (hsub : List.Sublist nodes n.children) (h : ReadsAlong (nodes.map s.range) ranges) :
    ReadsAlong [s.range n] ranges := by
  refine h.into ?_
  intro a ha
  obtain ⟨c, hc, rfl⟩ := List.mem_map.1 ha
  exact hn.inOrder.contains_child (hsub.subset hc)

namespace ReadsRow

theorem nil : ReadsRow s [] [] :=
  ⟨[], List.Sublist.refl _, rfl, .nil⟩

theorem skip (h : ReadsRow s nodes terms) : ReadsRow s (n :: nodes) terms := by
  obtain ⟨kept, hsub, hrest⟩ := h
  exact ⟨kept, hsub.cons n, hrest⟩

/-- One more node in front, with or without a term. -/
theorem cons {term : Option Term} (hterm : ∀ t ∈ term, Reads s n t)
    (hrow : InRow s (n :: nodes)) (h : ReadsRow s nodes terms) :
    ReadsRow s (n :: nodes) (term.toList ++ terms) := by
  cases term with
  | none => exact h.skip
  | some t =>
      obtain ⟨kept, hsub, hranges, hreads⟩ := h
      obtain ⟨hrange, ht⟩ := hterm t rfl
      have hbefore := (List.pairwise_cons.1 hrow.ordered).1
      refine ⟨n :: kept, hsub.cons_cons n, by simp [hrange, hranges], ?_⟩
      have hall := ht.append hreads (by simpa using fun c hc => hbefore c (hsub.subset hc))
      simpa using hall

theorem readsAlong (h : ReadsRow s nodes terms) :
    ReadsAlong (nodes.map s.range) (rangesAll terms) := by
  obtain ⟨kept, hsub, -, hreads⟩ := h
  refine hreads.widen ?_
  intro a ha
  exact ⟨a, (hsub.map s.range).subset ha, Range.contains_refl a⟩

/-- A term over those of children. -/
theorem reads (hn : n.Legible s) (hsub : List.Sublist nodes n.children)
    (h : ReadsRow s nodes terms) (kind : Kind) :
    Reads s n (written s kind (terms.map .node) n) := by
  refine reads_of_children hn ?_
  rw [Child.nodes_map]
  exact readsAlong_children hn hsub h.readsAlong

end ReadsRow

/-- What reaches from the first node of a row to the last leads the ranges along the row. -/
theorem ReadsAlong.enclose_row {ranges : List Range} (hrow : InRow s nodes) {a z : Concrete.Node}
    (ha : nodes.head? = some a) (hz : nodes.getLast? = some z)
    (h : ReadsAlong (nodes.map s.range) ranges) :
    ReadsAlong (nodes.map s.range) (⟨(s.range a).start, (s.range z).stop⟩ :: ranges) := by
  have hfirst := List.mem_of_mem_head? ha
  have hlast := List.mem_of_mem_getLast? hz
  refine h.enclose (List.mem_map_of_mem hfirst) (List.mem_map_of_mem hlast) ?_ ?_ ?_
  · exact le_trans (hrow.first_le ha hlast) (hrow.start_le_stop hlast)
  · simpa using fun c hc => hrow.first_le ha hc
  · simpa using fun c hc => hrow.le_last hz hc

/-- Statements of a row, joined to one term. -/
theorem ReadsRow.joined (hrow : InRow s nodes) (h : ReadsRow s nodes terms)
    (owner : Concrete.Node) :
    ReadsAlong (nodes.map s.range) (rangesAll (joined s owner terms).toList) := by
  match terms with
  | [] => exact .nil
  | [term] => exact h.readsAlong
  | first :: second :: rest =>
      obtain ⟨kept, hsub, hranges, hreads⟩ := h
      have hlast : (first :: second :: rest).getLast? =
          some ((second :: rest).getLast (List.cons_ne_nil _ _)) := by
        rw [List.getLast?_cons_cons, List.getLast?_eq_some_getLast]
      obtain ⟨a, ha, hfirst⟩ := Lowered.exists_head? hranges rfl
      obtain ⟨z, hz, hlast⟩ := Lowered.exists_getLast? hranges hlast
      have hrange : joinedRange s first ((second :: rest).getLast (List.cons_ne_nil _ _))
          owner = ⟨(s.range a).start, (s.range z).stop⟩ := by
        unfold joinedRange
        rw [hfirst, hlast]
      have hall := hreads.enclose_row (hrow.sublist hsub) ha hz
      have hsequence : ReadsAlong (nodes.map s.range)
          (⟨(s.range a).start, (s.range z).stop⟩ :: rangesAll (first :: second :: rest)) := by
        refine hall.widen ?_
        intro b hb
        exact ⟨b, (hsub.map s.range).subset hb, Range.contains_refl b⟩
      have hnodes : Child.nodes ((first :: second :: rest).map Child.node) =
          first :: second :: rest := Child.nodes_map _
      rw [Lowering.joined, Option.toList_some, Syntax.rangesAll_cons, Syntax.rangesAll_nil,
        List.append_nil, Term.ranges_eq, hrange, hnodes]
      exact hsequence

/-! ## Regions in a construct -/

/-- Two children whose roles are in order. -/
theorem fieldRegions_before (hn : n.Legible s) {role role' : Field}
    (hpair : (role, role') ∈ Concrete.Node.rolePairs n.kind) :
    ∀ a ∈ fieldRegions s n role, ∀ b ∈ fieldRegions s n role', a.stop ≤ b.start := by
  intro a ha b hb
  obtain ⟨c, hc, rfl⟩ := mem_fieldRegions ha
  obtain ⟨d, hd, rfl⟩ := mem_fieldRegions hb
  exact hn.forward.pairs (role, role') hpair c hc d hd

/-- A child of the header and the body. -/
theorem fieldRegions_before_body {roles : List Field}
    (hfirst : n.HeaderFirst (fun m => (s.range m).start) (fun m => (s.range m).stop) roles)
    {role : Field} (hrole : role ∈ roles) :
    ∀ a ∈ fieldRegions s n role,
      ∀ b ∈ (n.bodyNodes (roles.map n.field?)).map s.range, a.stop ≤ b.start := by
  intro a ha b hb
  obtain ⟨c, hc, rfl⟩ := mem_fieldRegions ha
  obtain ⟨d, hd, rfl⟩ := List.mem_map.1 hb
  exact hfirst role hrole c hc d hd

theorem bodyNodes_inside (hn : n.Legible s) (header : List (Option Concrete.Node)) :
    ∀ b ∈ (n.bodyNodes header).map s.range, (s.range n).contains b = true := by
  intro b hb
  obtain ⟨d, hd, rfl⟩ := List.mem_map.1 hb
  rcases Concrete.Node.mem_bodyNodes hd with hchild | ⟨body, hbody, hchild⟩
  · exact hn.inOrder.contains_child hchild
  · exact Range.contains_trans (hn.inOrder.contains_child hbody)
      ((hn.child hbody).inOrder.contains_child hchild)

theorem readsAlong_field (hn : n.Legible s) {role : Field} {ranges : List Range}
    (h : ReadsAlong (fieldRegions s n role) ranges) : ReadsAlong [s.range n] ranges :=
  h.into (fieldRegions_inside hn.inOrder role)

/-- The ranges of two children whose roles are in order. -/
theorem readsAlong_fields (hn : n.Legible s) {role role' : Field}
    (hpair : (role, role') ∈ Concrete.Node.rolePairs n.kind) {ranges ranges' : List Range}
    (h : ReadsAlong (fieldRegions s n role) ranges)
    (h' : ReadsAlong (fieldRegions s n role') ranges') :
    ReadsAlong [s.range n] (ranges ++ ranges') := by
  refine (h.append h' (fieldRegions_before hn hpair)).into ?_
  exact List.forall_mem_append.2
    ⟨fieldRegions_inside hn.inOrder role, fieldRegions_inside hn.inOrder role'⟩

/-- The ranges of a header and of the body behind it. -/
theorem readsAlong_header_body (hn : n.Legible s) {roles : List Field}
    (hfirst : n.HeaderFirst (fun m => (s.range m).start) (fun m => (s.range m).stop) roles)
    {role : Field} (hrole : role ∈ roles) {head body : List Range}
    (hhead : ReadsAlong (fieldRegions s n role) head)
    (hbody : ReadsAlong ((n.bodyNodes (roles.map n.field?)).map s.range) body) :
    ReadsAlong [s.range n] (head ++ body) := by
  refine (hhead.append hbody (fieldRegions_before_body hfirst hrole)).into ?_
  exact List.forall_mem_append.2 ⟨fieldRegions_inside hn.inOrder role, bodyNodes_inside hn _⟩

/-- A header of two children. -/
theorem readsAlong_headers_body (hn : n.Legible s) {roles : List Field}
    (hfirst : n.HeaderFirst (fun m => (s.range m).start) (fun m => (s.range m).stop) roles)
    {role role' : Field} (hrole : role ∈ roles) (hrole' : role' ∈ roles)
    (hpair : (role, role') ∈ Concrete.Node.rolePairs n.kind) {head head' body : List Range}
    (hhead : ReadsAlong (fieldRegions s n role) head)
    (hhead' : ReadsAlong (fieldRegions s n role') head')
    (hbody : ReadsAlong ((n.bodyNodes (roles.map n.field?)).map s.range) body) :
    ReadsAlong [s.range n] (head ++ head' ++ body) := by
  have hheader := hhead.append hhead' (fieldRegions_before hn hpair)
  have hbefore := List.forall_mem_append.2
    ⟨fieldRegions_before_body hfirst hrole, fieldRegions_before_body hfirst hrole'⟩
  refine (hheader.append hbody hbefore).into ?_
  exact List.forall_mem_append.2 ⟨List.forall_mem_append.2
    ⟨fieldRegions_inside hn.inOrder role, fieldRegions_inside hn.inOrder role'⟩,
    bodyNodes_inside hn _⟩

end Lowering
end RubyIndex
