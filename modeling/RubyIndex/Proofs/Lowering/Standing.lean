import RubyIndex.Proofs.Lowering.Nested
import RubyIndex.Proofs.Syntax.Within

/-!
# Terms that stand on nodes

What lowering asks of the spans of a concrete tree: they nest, and names are not empty.  The terms
of such a tree have the ranges of its nodes, or reach from one node of a row to another.

* `Concrete.Node.SpansNest`, what is asked of the offsets, and `Concrete.Node.Standing`, the same of
  the positions;
* `Stands`, a term on a node, and `StandsAlong`, the terms of some nodes;
* `Row`, nodes one after the other, and `StandsAlong.joined`, their terms joined to one.
-/

namespace RubyIndex

/-! ## Spans that nest -/

namespace Concrete.Node

section Nests

variable {α : Type} [LE α] (lo hi : Node → α)

/-- The span of a node, from `lo` to `hi`, holds those of its children, one after the other. -/
structure Nests (n : Node) : Prop where
  lo_le_hi : lo n ≤ hi n
  inside : ∀ c ∈ n.children, lo n ≤ lo c ∧ hi c ≤ hi n
  ordered : n.children.Pairwise fun c d => hi c ≤ lo d

variable [DecidableLE α]

instance (n : Node) : Decidable (n.Nests lo hi) :=
  decidable_of_iff
    (lo n ≤ hi n ∧ (∀ c ∈ n.children, lo n ≤ lo c ∧ hi c ≤ hi n) ∧
      n.children.Pairwise fun c d => hi c ≤ lo d)
    ⟨fun ⟨h₁, h₂, h₃⟩ => ⟨h₁, h₂, h₃⟩, fun ⟨h₁, h₂, h₃⟩ => ⟨h₁, h₂, h₃⟩⟩

end Nests

/-- The spans of a tree lie between characters of a text and nest. -/
def SpansNest (s : Source) (root : Node) : Prop :=
  ∀ n ∈ root.all, s.Boundary n.start ∧ s.Boundary n.stop ∧ n.Nests Node.start Node.stop

/-- No name in a tree is empty. -/
def NamesFilled (root : Node) : Prop :=
  ∀ n ∈ root.all, n.kind = .identifier → n.start < n.stop

instance (s : Source) (root : Node) : Decidable (root.SpansNest s) :=
  inferInstanceAs (Decidable (∀ n ∈ root.all,
    s.Boundary n.start ∧ s.Boundary n.stop ∧ n.Nests Node.start Node.stop))

instance (root : Node) : Decidable root.NamesFilled :=
  inferInstanceAs (Decidable (∀ n ∈ root.all, n.kind = .identifier → n.start < n.stop))

/-- The positions of a tree nest, and no name is empty. -/
def Standing (s : Source) (root : Node) : Prop :=
  ∀ n ∈ root.all, n.Nests (fun m => (s.range m).start) (fun m => (s.range m).stop) ∧
    (n.kind = .identifier → (s.range n).start < (s.range n).stop)

variable {s : Source} {n c : Node}

/-- All nodes of a tree end where the root does, or before. -/
theorem SpansNest.stop_le {root : Node} (h : root.SpansNest s) (hn : n ∈ root.all) :
    n.stop ≤ root.stop := by
  rcases mem_all_iff.1 hn with rfl | ⟨c, hc, hnc⟩
  · exact Nat.le_refl _
  · have hchild := ((h root (mem_all_self root)).2.2.inside c hc).2
    have hbelow : c.SpansNest s := fun m hm => h m (mem_all_of_child hc hm)
    exact Nat.le_trans (hbelow.stop_le hnc) hchild
termination_by sizeOf root
decreasing_by exact sizeOf_lt_of_mem_children hc

/-- The positions of a text are in the order of its offsets. -/
theorem SpansNest.standing {root : Node} (h : root.SpansNest s) (hnames : root.NamesFilled)
    (haddress : s.Addressable root.stop) : root.Standing s := by
  intro n hn
  obtain ⟨hstart, hstop, hnests⟩ := h n hn
  have hend := haddress.of_le (h.stop_le hn)
  refine ⟨⟨Source.position_le hstart hstop hend hnests.lo_le_hi, ?_, ?_⟩, ?_⟩
  · intro c hc
    have hmem := mem_all_of_mem_children hn hc
    obtain ⟨hcstart, hcstop, hcnests⟩ := h c hmem
    obtain ⟨hlo, hhi⟩ := hnests.inside c hc
    have hcend := haddress.of_le (h.stop_le hmem)
    exact ⟨Source.position_le hstart hcstart (hcend.of_le hcnests.lo_le_hi) hlo,
      Source.position_le hcstop hstop hend hhi⟩
  · refine hnests.ordered.imp_of_mem ?_
    intro c d hc hd hcd
    have hmem := mem_all_of_mem_children hn hd
    obtain ⟨hdstart, -, hdnests⟩ := h d hmem
    have hdend := (haddress.of_le (h.stop_le hmem)).of_le hdnests.lo_le_hi
    exact Source.position_le (h c (mem_all_of_mem_children hn hc)).2.1 hdstart hdend hcd
  · intro hkind
    exact Source.position_lt hstart hstop hend (hnames n hn hkind)

namespace Standing

theorem nests (h : n.Standing s) :
    n.Nests (fun m => (s.range m).start) fun m => (s.range m).stop :=
  (h n (mem_all_self n)).1

theorem child (h : n.Standing s) (hc : c ∈ n.children) : c.Standing s :=
  fun m hm => h m (mem_all_of_child hc hm)

theorem contains_child (h : n.Standing s) (hc : c ∈ n.children) :
    (s.range n).contains (s.range c) = true :=
  Range.contains_iff.2 (h.nests.inside c hc)

theorem filled (h : n.Standing s) (hkind : n.kind = .identifier) :
    (s.range n).start < (s.range n).stop :=
  (h n (mem_all_self n)).2 hkind

end Standing
end Concrete.Node

namespace Range

/-- What reaches from the first of some ranges in a row to the last holds them all. -/
theorem contains_of_row {ranges : List Range}
    (hordered : ranges.Pairwise fun a b => a.stop ≤ b.start)
    (hspans : ∀ r ∈ ranges, r.start ≤ r.stop) {a z r : Range} (ha : ranges.head? = some a)
    (hz : ranges.getLast? = some z) (hr : r ∈ ranges) :
    (⟨a.start, z.stop⟩ : Range).contains r = true := by
  refine contains_iff.2 ⟨?_, ?_⟩
  · cases ranges with
    | nil => cases hr
    | cons first rest =>
        obtain rfl : first = a := Option.some.inj ha
        rcases List.mem_cons.1 hr with rfl | hrest
        · exact le_refl _
        · have hbefore := (List.pairwise_cons.1 hordered).1 r hrest
          exact le_trans (hspans first List.mem_cons_self) hbefore
  · obtain ⟨front, rfl⟩ := List.getLast?_eq_some_iff.1 hz
    rcases List.mem_append.1 hr with hfront | hlast
    · have hbefore := (List.pairwise_append.1 hordered).2.2 r hfront z List.mem_cons_self
      exact le_trans hbefore (hspans z (by simp))
    · cases List.mem_singleton.1 hlast
      exact le_refl _

end Range

namespace Lowering

open Concrete (Source Field)
open Syntax (Kind Child Leaf Term WithinAll)

/-! ## Terms on nodes -/

/-- A term with the range of a node, and with all it holds within that range. -/
def Stands (s : Source) (n : Concrete.Node) (t : Term) : Prop :=
  t.range = some (s.range n) ∧ t.Within (some (s.range n))

/-- Terms that stand on some of the nodes, in the same order. -/
def StandsAlong (s : Source) (nodes : List Concrete.Node) (terms : List Term) : Prop :=
  ∃ kept, List.Sublist kept nodes ∧ List.Forall₂ (Stands s) kept terms

/-- Nodes in a region, one after the other. -/
structure Row (s : Source) (region : Range) (nodes : List Concrete.Node) : Prop where
  standing : ∀ c ∈ nodes, c.Standing s
  inside : ∀ c ∈ nodes, region.contains (s.range c) = true
  ordered : nodes.Pairwise fun c d => (s.range c).stop ≤ (s.range d).start

variable {s : Source} {n : Concrete.Node} {nodes : List Concrete.Node} {terms : List Term}
  {region : Range}

theorem stands_of_withinAll {kind : Kind} {children : List (Child Term)} {row : Option Nat}
    (hkind : kind ≠ .localVar) (h : WithinAll (s.range n) (Child.nodes children)) :
    Stands s n ⟨kind, children, some (s.range n), row⟩ :=
  ⟨rfl, Term.within_of_range hkind h (Range.contains_refl _)⟩

theorem withinAll_of_stands {term : Option Term} (h : ∀ t ∈ term, Stands s n t)
    (hregion : region.contains (s.range n) = true) : WithinAll region term.toList := by
  intro t ht
  exact (h t (Option.mem_toList.1 ht)).2.widen hregion

namespace Row

theorem sublist {nodes' : List Concrete.Node} (h : Row s region nodes)
    (hsub : List.Sublist nodes' nodes) : Row s region nodes' where
  standing := fun c hc => h.standing c (hsub.subset hc)
  inside := fun c hc => h.inside c (hsub.subset hc)
  ordered := h.ordered.sublist hsub

theorem children (h : n.Standing s) : Row s (s.range n) n.children where
  standing := fun _ hc => h.child hc
  inside := fun _ hc => h.contains_child hc
  ordered := h.nests.ordered

theorem namedChildren (h : n.Standing s) : Row s (s.range n) n.namedChildren :=
  (children h).sublist List.filter_sublist

theorem widen {outer : Range} (h : Row s region nodes) (hregion : outer.contains region = true) :
    Row s outer nodes where
  standing := h.standing
  inside := fun c hc => Range.contains_trans hregion (h.inside c hc)
  ordered := h.ordered

/-- The body of a construct is a row in it. -/
theorem bodyNodes (h : n.Standing s) (header : List (Option Concrete.Node)) :
    Row s (s.range n) (n.bodyNodes header) := by
  unfold Concrete.Node.bodyNodes
  split
  · rename_i body hbody
    have hchild := Concrete.Node.mem_children_of_field? hbody
    split
    · exact (namedChildren (h.child hchild)).widen (h.contains_child hchild)
    · exact (children h).sublist (List.singleton_sublist.2 hchild)
  · exact (namedChildren h).sublist List.filter_sublist

/-- From the first node of a row to the last. -/
theorem contains_between (h : Row s region nodes) {a z : Concrete.Node}
    (ha : nodes.head? = some a) (hz : nodes.getLast? = some z) :
    (∀ c ∈ nodes, (⟨(s.range a).start, (s.range z).stop⟩ : Range).contains (s.range c) = true) ∧
      region.contains ⟨(s.range a).start, (s.range z).stop⟩ = true := by
  refine ⟨?_, ?_⟩
  · intro c hc
    have hspans : ∀ r ∈ nodes.map s.range, r.start ≤ r.stop := by
      intro r hr
      obtain ⟨d, hd, rfl⟩ := List.mem_map.1 hr
      exact (h.standing d hd).nests.lo_le_hi
    exact Range.contains_of_row (List.pairwise_map.2 h.ordered) hspans
      (by rw [List.head?_map, ha]; rfl) (by rw [List.getLast?_map, hz]; rfl)
      (List.mem_map_of_mem hc)
  · have hfirst := Range.contains_iff.1 (h.inside a (List.mem_of_mem_head? ha))
    have hlast := Range.contains_iff.1 (h.inside z (List.mem_of_mem_getLast? hz))
    exact Range.contains_iff.2 ⟨hfirst.1, hlast.2⟩

end Row

namespace StandsAlong

theorem nil : StandsAlong s [] [] :=
  ⟨[], List.Sublist.refl _, .nil⟩

theorem skip (h : StandsAlong s nodes terms) : StandsAlong s (n :: nodes) terms := by
  obtain ⟨kept, hsub, hkept⟩ := h
  exact ⟨kept, hsub.cons n, hkept⟩

/-- One more node, with or without a term. -/
theorem cons {term : Option Term} (hterm : ∀ t ∈ term, Stands s n t)
    (h : StandsAlong s nodes terms) : StandsAlong s (n :: nodes) (term.toList ++ terms) := by
  cases term with
  | none => exact h.skip
  | some t =>
      obtain ⟨kept, hsub, hkept⟩ := h
      exact ⟨n :: kept, hsub.cons_cons n, .cons (hterm t rfl) hkept⟩

theorem withinAll (h : StandsAlong s nodes terms)
    (hinside : ∀ c ∈ nodes, region.contains (s.range c) = true) : WithinAll region terms := by
  obtain ⟨kept, hsub, hkept⟩ := h
  have hkeptInside : ∀ c ∈ kept, region.contains (s.range c) = true :=
    fun c hc => hinside c (hsub.subset hc)
  clear hsub
  induction hkept with
  | nil => simp
  | cons hstands _ ih =>
      rw [List.forall_mem_cons] at hkeptInside
      rw [Syntax.withinAll_cons]
      exact ⟨hstands.2.widen hkeptInside.1, ih hkeptInside.2⟩

theorem ranges_eq {kept : List Concrete.Node} (h : List.Forall₂ (Stands s) kept terms) :
    terms.map Term.range = kept.map fun n => some (s.range n) := by
  induction h with
  | nil => rfl
  | cons hstands _ ih => rw [List.map_cons, List.map_cons, hstands.1, ih]

/-- Statements of a row, joined to one term. -/
theorem joined (hrow : Row s region nodes) (h : StandsAlong s nodes terms)
    (owner : Concrete.Node) :
    WithinAll region (joined s owner terms).toList := by
  match terms with
  | [] => simp [Lowering.joined]
  | [term] => exact h.withinAll hrow.inside
  | first :: second :: rest =>
      obtain ⟨kept, hsub, hkept⟩ := h
      have hlast : (first :: second :: rest).getLast? =
          some ((second :: rest).getLast (List.cons_ne_nil _ _)) := by
        rw [List.getLast?_cons_cons, List.getLast?_eq_some_getLast]
      obtain ⟨a, ha, hfirst⟩ := Lowered.exists_head? (ranges_eq hkept) rfl
      obtain ⟨z, hz, hlast⟩ := Lowered.exists_getLast? (ranges_eq hkept) hlast
      -- the range of the sequence reaches from the first statement that was kept to the last
      have hrange : joinedRange s first ((second :: rest).getLast (List.cons_ne_nil _ _))
          owner = ⟨(s.range a).start, (s.range z).stop⟩ := by
        unfold joinedRange
        rw [hfirst, hlast]
      obtain ⟨hparts, hinside⟩ := (hrow.sublist hsub).contains_between ha hz
      have hterms : WithinAll ⟨(s.range a).start, (s.range z).stop⟩ (first :: second :: rest) :=
        withinAll ⟨kept, List.Sublist.refl _, hkept⟩ hparts
      have hsequence : Term.Within (some region)
          ⟨.sequence, (first :: second :: rest).map .node,
            some ⟨(s.range a).start, (s.range z).stop⟩, none⟩ := by
        refine Term.within_of_range (by decide) ?_ hinside
        rwa [Syntax.Child.nodes_map]
      simpa [Lowering.joined, hrange] using hsequence

end StandsAlong

end Lowering
end RubyIndex
