import RubyIndex.Proofs.Lowering.Terms
import RubyIndex.Proofs.Concrete.Arranged
import RubyIndex.Proofs.Syntax.Nested

/-!
# Regions of a text

Where the terms of a construct stand: on children with some role, in a row of nodes, or anywhere
from the first node of a row to the last.

* `Covers`, a nested term with the range of a node;
* `fieldRegions`, the region of a child with a role, and `fills_fields`;
* `InRow`, `Lowered`, nodes in a row and the terms they were turned into;
* `hull`, the region from the first node of a row to the last, and `fills_hull_append`;
* `fills_header_body`, a header and the body behind it.
-/

namespace RubyIndex

namespace Concrete.Node.InOrder

variable {s : Source} {n c d : Node}

/-! ## Spans of children -/

theorem arranged (h : n.InOrder s) :
    n.Arranged (fun m => (s.range m).start) fun m => (s.range m).stop :=
  h n (mem_all_self n)

theorem child (h : n.InOrder s) (hc : c ∈ n.children) : c.InOrder s :=
  fun m hm => h m (mem_all_of_child hc hm)

theorem field (h : n.InOrder s) {role : Field} (hc : n.field? role = some c) : c.InOrder s :=
  h.child (mem_children_of_field? hc)

theorem contains_child (h : n.InOrder s) (hc : c ∈ n.children) :
    (s.range n).contains (s.range c) = true :=
  Range.contains_iff.2 (h.arranged.inside c hc)

/-- Two children are apart. -/
theorem apart (h : n.InOrder s) (hc : c ∈ n.children) (hd : d ∈ n.children) (hne : c ≠ d) :
    (s.range c).Apart (s.range d) := by
  have hapart : n.children.Pairwise fun c d => (s.range c).Apart (s.range d) :=
    h.arranged.ordered.imp fun hcd => Or.inl hcd
  have hsymm : Std.Symm fun c d : Node => (s.range c).Apart (s.range d) :=
    ⟨fun _ _ hcd => hcd.symm⟩
  exact hapart.forall hc hd hne

/-- The header of a construct of a known kind. -/
theorem headerFirst (h : n.InOrder s) {kind : Kind} (hkind : n.kind = kind) :
    n.HeaderFirst (fun m => (s.range m).start) (fun m => (s.range m).stop)
      (headerRoles kind) := by
  have hfirst := h.arranged.header_first
  rwa [hkind] at hfirst

end Concrete.Node.InOrder

namespace Lowering

open Concrete (Source Field)
open Syntax (Kind Child Leaf Term Fills)

/-! ## Terms on nodes -/

/-- A nested term with the range of a node. -/
def Covers (s : Source) (n : Concrete.Node) (t : Term) : Prop :=
  t.range = some (s.range n) ∧ t.Nested

/-- The region of the child with a role. -/
def fieldRegions (s : Source) (n : Concrete.Node) (role : Field) : List Range :=
  (n.field? role).toList.map s.range

/-- Nodes that are in order, one after the other. -/
structure InRow (s : Source) (nodes : List Concrete.Node) : Prop where
  inOrder : ∀ c ∈ nodes, c.InOrder s
  ordered : nodes.Pairwise fun c d => (s.range c).stop ≤ (s.range d).start

/-- Nested terms with the ranges of some of the nodes, in the same order. -/
def Lowered (s : Source) (nodes : List Concrete.Node) (terms : List Term) : Prop :=
  ∃ kept, List.Sublist kept nodes ∧ terms.map Term.range = kept.map (fun n => some (s.range n)) ∧
    ∀ t ∈ terms, t.Nested

/-- The region from the first of some nodes to the last. -/
def hull (s : Source) (nodes : List Concrete.Node) : List Range :=
  match nodes.head?, nodes.getLast? with
  | some a, some z => [⟨(s.range a).start, (s.range z).stop⟩]
  | _, _ => []

variable {s : Source} {n c : Concrete.Node} {nodes : List Concrete.Node} {terms : List Term}

theorem Covers.fills {t : Term} (h : Covers s n t) : Fills [s.range n] [t] := by
  refine .single h.2 ?_
  intro r hr
  rw [h.1] at hr
  cases hr
  exact Range.contains_refl _

theorem fills_of_covers {term : Option Term} (h : ∀ t ∈ term, Covers s n t) :
    Fills [s.range n] term.toList := by
  cases term with
  | none => exact .nil
  | some t => exact (h t rfl).fills

/-- A term over what stands in its node. -/
theorem covers_of_fills {kind : Kind} {children : List (Child Term)} {row : Option Nat}
    (h : Fills [s.range n] (Child.nodes children)) :
    Covers s n ⟨kind, children, some (s.range n), row⟩ :=
  ⟨rfl, h.nested_term⟩

/-- A term with nothing but leaves. -/
theorem covers_leaves {kind : Kind} {children : List (Child Term)} {row : Option Nat}
    (h : Child.nodes children = []) : Covers s n ⟨kind, children, some (s.range n), row⟩ :=
  ⟨rfl, Term.nested_of_nodes_eq_nil h⟩

/-! ## Regions of fields -/

theorem fieldRegions_eq {role : Field} (h : n.field? role = some c) :
    fieldRegions s n role = [s.range c] := by
  simp [fieldRegions, h]

theorem mem_fieldRegions {role : Field} {a : Range} (h : a ∈ fieldRegions s n role) :
    ∃ c, n.field? role = some c ∧ a = s.range c := by
  obtain ⟨c, hc, rfl⟩ := List.mem_map.1 h
  exact ⟨c, Option.mem_toList.1 hc, rfl⟩

theorem fieldRegions_inside (h : n.InOrder s) (role : Field) :
    ∀ a ∈ fieldRegions s n role, (s.range n).contains a = true := by
  intro a ha
  obtain ⟨c, hc, rfl⟩ := mem_fieldRegions ha
  exact h.contains_child (Concrete.Node.mem_children_of_field? hc)

theorem role_of_field? {role : Field} (h : n.field? role = some c) : c.role = some role := by
  have hfound := List.find?_some h
  simpa using hfound

/-- Children with different roles are apart. -/
theorem fieldRegions_apart (h : n.InOrder s) {role role' : Field} (hne : role ≠ role') :
    ∀ a ∈ fieldRegions s n role, ∀ b ∈ fieldRegions s n role', a.Apart b := by
  intro a ha b hb
  obtain ⟨c, hc, rfl⟩ := mem_fieldRegions ha
  obtain ⟨d, hd, rfl⟩ := mem_fieldRegions hb
  refine h.apart (Concrete.Node.mem_children_of_field? hc)
    (Concrete.Node.mem_children_of_field? hd) ?_
  -- a child has one role only
  rintro rfl
  have hrole := (role_of_field? hc).symm.trans (role_of_field? hd)
  exact hne (Option.some.inj hrole)

theorem fills_field (hn : n.InOrder s) {role : Field} (h : Fills (fieldRegions s n role) terms) :
    Fills [s.range n] terms :=
  h.into (fieldRegions_inside hn role)

/-- The terms of two fields stand in their node. -/
theorem fills_fields (hn : n.InOrder s) {role role' : Field} (hne : role ≠ role')
    {terms' : List Term} (h : Fills (fieldRegions s n role) terms)
    (h' : Fills (fieldRegions s n role') terms') : Fills [s.range n] (terms ++ terms') := by
  refine (h.append h' (fieldRegions_apart hn hne)).into ?_
  intro a ha
  rcases List.mem_append.1 ha with ha | ha
  · exact fieldRegions_inside hn role a ha
  · exact fieldRegions_inside hn role' a ha

/-! ## Rows of nodes -/

namespace InRow

theorem sublist {nodes' : List Concrete.Node} (h : InRow s nodes)
    (hsub : List.Sublist nodes' nodes) : InRow s nodes' where
  inOrder := fun c hc => h.inOrder c (hsub.subset hc)
  ordered := h.ordered.sublist hsub

theorem children (h : n.InOrder s) : InRow s n.children where
  inOrder := fun _ hc => h.child hc
  ordered := h.arranged.ordered

theorem namedChildren (h : n.InOrder s) : InRow s n.namedChildren :=
  (children h).sublist List.filter_sublist

theorem single (h : n.InOrder s) : InRow s [n] where
  inOrder := by simpa using h
  ordered := List.pairwise_singleton _ _

/-- The body of a construct is a row. -/
theorem bodyNodes (h : n.InOrder s) (header : List (Option Concrete.Node)) :
    InRow s (n.bodyNodes header) := by
  unfold Concrete.Node.bodyNodes
  split
  · rename_i body hbody
    have hbelow := h.field hbody
    split
    · exact namedChildren hbelow
    · exact single hbelow
  · exact (namedChildren h).sublist List.filter_sublist

theorem start_le_stop (h : InRow s nodes) (hc : c ∈ nodes) :
    (s.range c).start ≤ (s.range c).stop :=
  (h.inOrder c hc).arranged.lo_le_hi

/-- The nodes of a row are apart. -/
theorem apart (h : InRow s nodes) : (nodes.map s.range).Pairwise Range.Apart :=
  List.pairwise_map.2 (h.ordered.imp fun hcd => Or.inl hcd)

/-- The first node of a row begins first. -/
theorem first_le (h : InRow s nodes) {a : Concrete.Node} (ha : nodes.head? = some a)
    (hc : c ∈ nodes) : (s.range a).start ≤ (s.range c).start := by
  cases nodes with
  | nil => cases hc
  | cons first rest =>
      cases ha
      rcases List.mem_cons.1 hc with rfl | hrest
      · exact le_refl _
      · have hbefore := (List.pairwise_cons.1 h.ordered).1 c hrest
        exact le_trans (h.start_le_stop List.mem_cons_self) hbefore

/-- The last node of a row ends last. -/
theorem le_last (h : InRow s nodes) {z : Concrete.Node} (hz : nodes.getLast? = some z)
    (hc : c ∈ nodes) : (s.range c).stop ≤ (s.range z).stop := by
  obtain ⟨front, rfl⟩ := List.getLast?_eq_some_iff.1 hz
  rcases List.mem_append.1 hc with hfront | hlast
  · have hbefore := (List.pairwise_append.1 h.ordered).2.2 c hfront z List.mem_cons_self
    exact le_trans hbefore (h.start_le_stop (by simp))
  · cases List.mem_singleton.1 hlast
    exact le_refl _

end InRow

/-! ## Hulls -/

theorem hull_eq {a z : Concrete.Node} (ha : nodes.head? = some a)
    (hz : nodes.getLast? = some z) :
    hull s nodes = [⟨(s.range a).start, (s.range z).stop⟩] := by
  unfold hull
  rw [ha, hz]

theorem mem_hull {r : Range} (h : r ∈ hull s nodes) :
    ∃ a ∈ nodes, ∃ z ∈ nodes, r = ⟨(s.range a).start, (s.range z).stop⟩ := by
  unfold hull at h
  split at h
  · rename_i a z ha hz
    exact ⟨a, List.mem_of_mem_head? ha, z, List.mem_of_mem_getLast? hz, List.mem_singleton.1 h⟩
  · cases h

/-- The hull of a row holds what reaches from one of its nodes to another. -/
theorem InRow.hull_contains (h : InRow s nodes) {d : Concrete.Node} (hc : c ∈ nodes)
    (hd : d ∈ nodes) :
    ∃ r ∈ hull s nodes, r.contains ⟨(s.range c).start, (s.range d).stop⟩ = true := by
  unfold hull
  split
  · rename_i a z ha hz
    refine ⟨_, List.mem_singleton.2 rfl, Range.contains_iff.2 ?_⟩
    exact ⟨h.first_le ha hc, h.le_last hz hd⟩
  · -- there is a node, so there is a first and a last one
    rename_i hnone
    cases nodes with
    | nil => cases hc
    | cons first rest => exact absurd rfl (hnone first _ rfl)

/-- The hull of nodes in a region is in the region. -/
theorem hull_inside {region : Range} (h : ∀ c ∈ nodes, region.contains (s.range c) = true) :
    ∀ r ∈ hull s nodes, region.contains r = true := by
  intro r hr
  obtain ⟨a, ha, z, hz, rfl⟩ := mem_hull hr
  have hfirst := Range.contains_iff.1 (h a ha)
  have hlast := Range.contains_iff.1 (h z hz)
  exact Range.contains_iff.2 ⟨hfirst.1, hlast.2⟩

/-- What stands in the hull of a part of a row stands in that of the row. -/
theorem fills_hull_sublist (hrow : InRow s nodes) {part : List Concrete.Node}
    (hsub : List.Sublist part nodes) (h : Fills (hull s part) terms) :
    Fills (hull s nodes) terms := by
  refine h.widen ?_
  intro r hr
  obtain ⟨a, ha, z, hz, rfl⟩ := mem_hull hr
  exact hrow.hull_contains (hsub.subset ha) (hsub.subset hz)

/-- The terms of two parts of a row. -/
theorem fills_hull_append {front back : List Concrete.Node} (hrow : InRow s (front ++ back))
    {terms' : List Term} (h : Fills (hull s front) terms) (h' : Fills (hull s back) terms') :
    Fills (hull s (front ++ back)) (terms ++ terms') := by
  have hapart : ∀ a ∈ hull s front, ∀ b ∈ hull s back, a.Apart b := by
    intro a ha b hb
    -- the last node of the front ends before the first one of the back begins
    obtain ⟨_, -, z, hz, rfl⟩ := mem_hull ha
    obtain ⟨first, hfirst, _, -, rfl⟩ := mem_hull hb
    exact Or.inl ((List.pairwise_append.1 hrow.ordered).2.2 z hz first hfirst)
  refine (h.append h' hapart).widen ?_
  intro r hr
  rcases List.mem_append.1 hr with hr | hr
  · obtain ⟨a, ha, z, hz, rfl⟩ := mem_hull hr
    exact hrow.hull_contains (List.mem_append_left _ ha) (List.mem_append_left _ hz)
  · obtain ⟨a, ha, z, hz, rfl⟩ := mem_hull hr
    exact hrow.hull_contains (List.mem_append_right _ ha) (List.mem_append_right _ hz)

/-- What stands in the hull of constructs of a node stands in the node. -/
theorem fills_hull_namedChildren (hn : n.InOrder s) (h : Fills (hull s n.namedChildren) terms) :
    Fills [s.range n] terms := by
  refine h.into (hull_inside ?_)
  intro c hc
  exact hn.contains_child (Concrete.Node.mem_children_of_namedChildren hc)

/-! ## Headers and bodies -/

/-- The hull of a body, in its construct. -/
theorem hull_bodyNodes_inside (h : n.InOrder s) (header : List (Option Concrete.Node)) :
    ∀ r ∈ hull s (n.bodyNodes header), (s.range n).contains r = true := by
  refine hull_inside ?_
  intro b hb
  rcases Concrete.Node.mem_bodyNodes hb with hchild | ⟨body, hbody, hchild⟩
  · exact h.contains_child hchild
  · exact Range.contains_trans (h.contains_child hbody) ((h.child hbody).contains_child hchild)

/-- A header, in children with roles before the body, and the body behind it. -/
theorem fills_header_body (hn : n.InOrder s) {roles : List Field}
    (hfirst : n.HeaderFirst (fun m => (s.range m).start) (fun m => (s.range m).stop) roles)
    {regions : List Range}
    (hregions : ∀ a ∈ regions, ∃ role ∈ roles, a ∈ fieldRegions s n role)
    {head : List Term} {body : Option Term} (hhead : Fills regions head)
    (hbody : Fills (hull s (n.bodyNodes (roles.map n.field?))) body.toList) :
    Fills [s.range n] (head ++ body.toList) := by
  have hapart : ∀ a ∈ regions, ∀ b ∈ hull s (n.bodyNodes (roles.map n.field?)), a.Apart b := by
    intro a ha b hb
    obtain ⟨role, hrole, hfield⟩ := hregions a ha
    obtain ⟨c, hc, rfl⟩ := mem_fieldRegions hfield
    obtain ⟨first, hbegin, last, -, rfl⟩ := mem_hull hb
    exact Or.inl (hfirst role hrole c hc first hbegin)
  refine (hhead.append hbody hapart).into ?_
  intro a ha
  rcases List.mem_append.1 ha with ha | ha
  · obtain ⟨role, -, hfield⟩ := hregions a ha
    exact fieldRegions_inside hn role a hfield
  · exact hull_bodyNodes_inside hn _ a ha

/-- A header of two children. -/
theorem fills_headers_body (hn : n.InOrder s) {roles : List Field}
    (hfirst : n.HeaderFirst (fun m => (s.range m).start) (fun m => (s.range m).stop) roles)
    {role role' : Field} (hne : role ≠ role') (hrole : role ∈ roles) (hrole' : role' ∈ roles)
    {head head' : List Term} {body : Option Term} (hhead : Fills (fieldRegions s n role) head)
    (hhead' : Fills (fieldRegions s n role') head')
    (hbody : Fills (hull s (n.bodyNodes (roles.map n.field?))) body.toList) :
    Fills [s.range n] (head ++ head' ++ body.toList) := by
  have hboth := hhead.append hhead' (fieldRegions_apart hn hne)
  refine fills_header_body hn hfirst ?_ hboth hbody
  intro a ha
  rcases List.mem_append.1 ha with ha | ha
  · exact ⟨role, hrole, ha⟩
  · exact ⟨role', hrole', ha⟩

/-! ## Terms of a row -/

namespace Lowered

theorem nil : Lowered s [] [] :=
  ⟨[], List.Sublist.refl _, rfl, by simp⟩

theorem skip (h : Lowered s nodes terms) : Lowered s (n :: nodes) terms := by
  obtain ⟨kept, hsub, hrest⟩ := h
  exact ⟨kept, hsub.cons n, hrest⟩

/-- One more node, with or without a term. -/
theorem cons {term : Option Term} (hterm : ∀ t ∈ term, Covers s n t)
    (h : Lowered s nodes terms) : Lowered s (n :: nodes) (term.toList ++ terms) := by
  cases term with
  | none => exact h.skip
  | some t =>
      obtain ⟨kept, hsub, hranges, hnested⟩ := h
      obtain ⟨hrange, ht⟩ := hterm t rfl
      refine ⟨n :: kept, hsub.cons_cons n, ?_, ?_⟩
      · simp [hrange, hranges]
      · simpa using ⟨ht, hnested⟩

theorem ranges_eq {kept : List Concrete.Node}
    (h : terms.map Term.range = kept.map fun n => some (s.range n)) :
    terms.filterMap Term.range = kept.map s.range := by
  calc terms.filterMap Term.range
      = (terms.map Term.range).filterMap id := by simp [List.filterMap_map]
    _ = (kept.map fun n => some (s.range n)).filterMap id := by rw [h]
    _ = kept.map s.range := by
        rw [List.filterMap_map]
        exact congrFun List.filterMap_eq_map kept

/-- The terms of a row stand on its nodes. -/
theorem fills (hrow : InRow s nodes) (h : Lowered s nodes terms) :
    Fills (nodes.map s.range) terms := by
  obtain ⟨kept, hsub, hranges, hnested⟩ := h
  refine ⟨hnested, ?_, ?_⟩
  · intro r hr
    rw [ranges_eq hranges] at hr
    obtain ⟨c, hc, rfl⟩ := List.mem_map.1 hr
    exact ⟨s.range c, List.mem_map_of_mem (hsub.subset hc), Range.contains_refl _⟩
  · rw [ranges_eq hranges]
    exact (hrow.sublist hsub).apart

theorem fills_hull (hrow : InRow s nodes) (h : Lowered s nodes terms) :
    Fills (hull s nodes) terms := by
  refine (h.fills hrow).widen ?_
  intro a ha
  obtain ⟨c, hc, rfl⟩ := List.mem_map.1 ha
  exact hrow.hull_contains hc hc

/-- A term over those of children. -/
theorem covers (hn : n.InOrder s) (hsub : List.Sublist nodes n.children)
    (h : Lowered s nodes terms) (kind : Kind) :
    Covers s n (written s kind (terms.map .node) n) := by
  have hfills : Fills [s.range n] terms := by
    refine (h.fills ((InRow.children hn).sublist hsub)).into ?_
    intro a ha
    obtain ⟨c, hc, rfl⟩ := List.mem_map.1 ha
    exact hn.contains_child (hsub.subset hc)
  exact covers_of_fills (by simpa using hfills)

/-- The first term of a row stands on the first node that is kept. -/
theorem exists_head? {kept : List Concrete.Node} {t : Term}
    (h : terms.map Term.range = kept.map fun n => some (s.range n)) (ht : terms.head? = some t) :
    ∃ a, kept.head? = some a ∧ t.range = some (s.range a) := by
  have hhead := congrArg List.head? h
  rw [List.head?_map, List.head?_map, ht] at hhead
  obtain ⟨a, ha, hrange⟩ := Option.map_eq_some_iff.1 hhead.symm
  exact ⟨a, ha, hrange.symm⟩

/-- The last term of a row stands on the last node that is kept. -/
theorem exists_getLast? {kept : List Concrete.Node} {t : Term}
    (h : terms.map Term.range = kept.map fun n => some (s.range n))
    (ht : terms.getLast? = some t) :
    ∃ z, kept.getLast? = some z ∧ t.range = some (s.range z) := by
  have hlast := congrArg List.getLast? h
  rw [List.getLast?_map, List.getLast?_map, ht] at hlast
  obtain ⟨z, hz, hrange⟩ := Option.map_eq_some_iff.1 hlast.symm
  exact ⟨z, hz, hrange.symm⟩

/-- Statements of a row, joined to one term. -/
theorem fills_joined (hrow : InRow s nodes) (h : Lowered s nodes terms)
    (owner : Concrete.Node) :
    Fills (hull s nodes) (joined s owner terms).toList := by
  match terms with
  | [] => exact .nil
  | [term] => exact h.fills_hull hrow
  | first :: second :: rest =>
      obtain ⟨kept, hsub, hranges, hnested⟩ := h
      have hlast : (first :: second :: rest).getLast? =
          some ((second :: rest).getLast (List.cons_ne_nil _ _)) := by
        rw [List.getLast?_cons_cons, List.getLast?_eq_some_getLast]
      obtain ⟨a, ha, hfirst⟩ := exists_head? hranges rfl
      obtain ⟨z, hz, hlast⟩ := exists_getLast? hranges hlast
      -- the range of the sequence is the hull of the nodes its statements come from
      have hrange : joinedRange s first ((second :: rest).getLast (List.cons_ne_nil _ _))
          owner = ⟨(s.range a).start, (s.range z).stop⟩ := by
        unfold joinedRange
        rw [hfirst, hlast]
      have hfills : Fills (hull s kept) (first :: second :: rest) :=
        fills_hull (hrow.sublist hsub) ⟨kept, List.Sublist.refl _, hranges, hnested⟩
      refine fills_hull_sublist hrow hsub ?_
      rw [hull_eq ha hz] at hfills ⊢
      have hsequence : Fills [⟨(s.range a).start, (s.range z).stop⟩]
          [⟨.sequence, (first :: second :: rest).map .node,
            some ⟨(s.range a).start, (s.range z).stop⟩, none⟩] :=
        Fills.enclose (by simpa using hfills)
      simpa [joined, hrange] using hsequence

end Lowered

end Lowering
end RubyIndex
