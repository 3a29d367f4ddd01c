import RubyIndex.Proofs.Concrete.Positions

/-!
# Arranged concrete trees

What a parser promises about the spans of the nodes of a text.  The offsets of such a tree turn into
positions that keep the arrangement.

* `Node.all`, a node and all below it;
* `Node.Arranged`, the order of the children of one node, in any measure of the text;
* `Node.WellSpanned`, a tree that is arranged by offsets between characters;
* `Node.WellSpanned.inOrder`, which is then arranged by positions.
-/

namespace RubyIndex
namespace Concrete
namespace Node

/-! ## Nodes of a tree -/

mutual

/-- A node and all below it. -/
def all : Node → List Node
  | n@⟨_, _, _, _, _, _, children⟩ => n :: allOf children

def allOf : List Node → List Node
  | [] => []
  | n :: rest => all n ++ allOf rest

end

theorem allOf_eq_flatMap (nodes : List Node) : allOf nodes = nodes.flatMap all := by
  induction nodes with
  | nil => simp [allOf]
  | cons n nodes ih => simp [allOf, ih]

theorem all_eq (n : Node) : n.all = n :: n.children.flatMap all := by
  cases n
  rw [all, allOf_eq_flatMap]

theorem mem_all_self (n : Node) : n ∈ n.all := by
  rw [all_eq]
  exact List.mem_cons_self

/-- At or below a node is the node itself and what is at or below its children. -/
theorem mem_all_iff {n m : Node} : m ∈ n.all ↔ m = n ∨ ∃ c ∈ n.children, m ∈ c.all := by
  rw [all_eq, List.mem_cons, List.mem_flatMap]

theorem mem_all_of_child {n c m : Node} (hc : c ∈ n.children) (hm : m ∈ c.all) : m ∈ n.all :=
  mem_all_iff.2 (Or.inr ⟨c, hc, hm⟩)

theorem sizeOf_lt_of_mem_children {n c : Node} (h : c ∈ n.children) : sizeOf c < sizeOf n := by
  have hlt := List.sizeOf_lt_of_mem h
  cases n
  simp only [mk.sizeOf_spec] at hlt ⊢
  omega

/-- A child of a node below is below. -/
theorem mem_all_of_mem_children {n m c : Node} (hm : m ∈ n.all) (hc : c ∈ m.children) :
    c ∈ n.all := by
  rcases mem_all_iff.1 hm with rfl | ⟨d, hd, hmd⟩
  · exact mem_all_of_child hc (mem_all_self c)
  · exact mem_all_of_child hd (mem_all_of_mem_children hmd hc)
termination_by sizeOf n
decreasing_by exact sizeOf_lt_of_mem_children hd

/-! ## Arrangement -/

/-- The roles of the children that stand before the body of a construct. -/
def headerRoles : Kind → List Field
  | .classNode => [.name, .superclass]
  | .moduleNode => [.name]
  | .singletonClass => [.value]
  | .method => [.name, .parameters]
  | .singletonMethod => [.object, .name, .parameters]
  | .block | .doBlock => [.parameters]
  | _ => []

section Arranged

variable {α : Type} [LE α] (lo hi : Node → α)

/-- A header of children with some roles ends before the body begins. -/
def HeaderFirst (n : Node) (roles : List Field) : Prop :=
  ∀ role ∈ roles, ∀ h ∈ n.field? role, ∀ b ∈ n.bodyNodes (roles.map n.field?), hi h ≤ lo b

/-- The span of a node, from `lo` to `hi`, holds those of its children, one after the other; a
header comes before the body, and the block of a call, with a header of its own, after the rest. -/
structure Arranged (n : Node) : Prop where
  lo_le_hi : lo n ≤ hi n
  inside : ∀ c ∈ n.children, lo n ≤ lo c ∧ hi c ≤ hi n
  ordered : n.children.Pairwise fun c d => hi c ≤ lo d
  header_first : n.HeaderFirst lo hi (headerRoles n.kind)
  block_last : n.kind = .call → ∀ block ∈ n.field? .block,
    (∀ role ∈ [Field.receiver, .method, .arguments], ∀ part ∈ n.field? role,
      hi part ≤ lo block) ∧ block.HeaderFirst lo hi [.parameters]

variable [DecidableLE α]

instance (n : Node) (roles : List Field) : Decidable (n.HeaderFirst lo hi roles) :=
  inferInstanceAs (Decidable (∀ role ∈ roles, ∀ h ∈ n.field? role,
    ∀ b ∈ n.bodyNodes (roles.map n.field?), hi h ≤ lo b))

instance (n : Node) : Decidable (n.Arranged lo hi) :=
  decidable_of_iff
    (lo n ≤ hi n ∧ (∀ c ∈ n.children, lo n ≤ lo c ∧ hi c ≤ hi n) ∧
      (n.children.Pairwise fun c d => hi c ≤ lo d) ∧
      n.HeaderFirst lo hi (headerRoles n.kind) ∧
      (n.kind = .call → ∀ block ∈ n.field? .block,
        (∀ role ∈ [Field.receiver, .method, .arguments], ∀ part ∈ n.field? role,
          hi part ≤ lo block) ∧ block.HeaderFirst lo hi [.parameters]))
    ⟨fun ⟨h₁, h₂, h₃, h₄, h₅⟩ => ⟨h₁, h₂, h₃, h₄, h₅⟩,
      fun ⟨h₁, h₂, h₃, h₄, h₅⟩ => ⟨h₁, h₂, h₃, h₄, h₅⟩⟩

end Arranged

/-! ## Parts of a node -/

theorem mem_children_of_field? {n c : Node} {role : Field} (h : n.field? role = some c) :
    c ∈ n.children :=
  List.mem_of_find?_eq_some h

theorem mem_children_of_namedChildren {n c : Node} (h : c ∈ n.namedChildren) : c ∈ n.children :=
  (List.mem_filter.1 h).1

/-- The nodes of a body are children, or children of the child that is the body. -/
theorem mem_bodyNodes {n b : Node} {header : List (Option Node)} (h : b ∈ n.bodyNodes header) :
    b ∈ n.children ∨ ∃ body ∈ n.children, b ∈ body.children := by
  unfold bodyNodes at h
  split at h
  · rename_i body hbody
    have hchild := mem_children_of_field? hbody
    split at h
    · exact Or.inr ⟨body, hchild, mem_children_of_namedChildren h⟩
    · rw [List.mem_singleton.1 h]
      exact Or.inl hchild
  · exact Or.inl (mem_children_of_namedChildren (List.mem_filter.1 h).1)

theorem mem_all_of_mem_bodyNodes {root n b : Node} {header : List (Option Node)}
    (hn : n ∈ root.all) (hb : b ∈ n.bodyNodes header) : b ∈ root.all := by
  rcases mem_bodyNodes hb with hchild | ⟨body, hbody, hchild⟩
  · exact mem_all_of_mem_children hn hchild
  · exact mem_all_of_mem_children (mem_all_of_mem_children hn hbody) hchild

/-! ## Trees -/

/-- The spans of a tree lie between characters of a text, and each node is arranged by them. -/
def WellSpanned (s : Source) (root : Node) : Prop :=
  ∀ n ∈ root.all, s.Boundary n.start ∧ s.Boundary n.stop ∧ n.Arranged Node.start Node.stop

/-- Each node of a tree is arranged by its positions in a text. -/
def InOrder (s : Source) (root : Node) : Prop :=
  ∀ n ∈ root.all, n.Arranged (fun m => (s.range m).start) fun m => (s.range m).stop

instance (s : Source) (root : Node) : Decidable (root.WellSpanned s) :=
  inferInstanceAs (Decidable (∀ n ∈ root.all,
    s.Boundary n.start ∧ s.Boundary n.stop ∧ n.Arranged Node.start Node.stop))

namespace WellSpanned

variable {s : Source}

theorem child {root : Node} (h : root.WellSpanned s) {c : Node} (hc : c ∈ root.children) :
    c.WellSpanned s :=
  fun n hn => h n (mem_all_of_child hc hn)

/-- All nodes of a tree end where the root does, or before. -/
theorem stop_le {root : Node} (h : root.WellSpanned s) {n : Node} (hn : n ∈ root.all) :
    n.stop ≤ root.stop := by
  rcases mem_all_iff.1 hn with rfl | ⟨c, hc, hnc⟩
  · exact Nat.le_refl _
  · have hchild := ((h root (mem_all_self root)).2.2.inside c hc).2
    exact Nat.le_trans ((h.child hc).stop_le hnc) hchild
termination_by sizeOf root
decreasing_by exact sizeOf_lt_of_mem_children hc

/-- The positions of a text are in the order of its offsets, so the arrangement stays. -/
theorem inOrder {root : Node} (h : root.WellSpanned s) (haddress : s.Addressable root.stop) :
    root.InOrder s := by
  have hmono : ∀ {a b : Nat}, s.Boundary a → s.Boundary b → b ≤ root.stop → a ≤ b →
      s.position a ≤ s.position b := by
    intro a b ha hb hstop hab
    exact Source.position_le ha hb (haddress.of_le hstop) hab
  -- one node that ends before another begins does so by positions too
  have hbefore : ∀ {c d : Node}, c ∈ root.all → d ∈ root.all → c.stop ≤ d.start →
      (s.range c).stop ≤ (s.range d).start := by
    intro c d hc hd hcd
    have hd' := (h d hd).2.2.lo_le_hi
    exact hmono (h c hc).2.1 (h d hd).1 (Nat.le_trans hd' (h.stop_le hd)) hcd
  have hheader : ∀ {n : Node} {roles : List Field}, n ∈ root.all →
      n.HeaderFirst Node.start Node.stop roles →
        n.HeaderFirst (fun m => (s.range m).start) (fun m => (s.range m).stop) roles := by
    intro n roles hn hfirst role hrole head hhead b hb
    exact hbefore (mem_all_of_mem_children hn (mem_children_of_field? hhead))
      (mem_all_of_mem_bodyNodes hn hb) (hfirst role hrole head hhead b hb)
  intro n hn
  obtain ⟨hstart, hstop, harranged⟩ := h n hn
  refine ⟨?_, ?_, ?_, ?_, ?_⟩
  · exact hmono hstart hstop (h.stop_le hn) harranged.lo_le_hi
  · intro c hc
    have hmem := mem_all_of_mem_children hn hc
    obtain ⟨hcstart, hcstop, hcarranged⟩ := h c hmem
    obtain ⟨hlo, hhi⟩ := harranged.inside c hc
    have hend : c.start ≤ root.stop := Nat.le_trans hcarranged.lo_le_hi (h.stop_le hmem)
    exact ⟨hmono hstart hcstart hend hlo, hmono hcstop hstop (h.stop_le hn) hhi⟩
  · refine harranged.ordered.imp_of_mem ?_
    intro c d hc hd hcd
    exact hbefore (mem_all_of_mem_children hn hc) (mem_all_of_mem_children hn hd) hcd
  · exact hheader hn harranged.header_first
  · intro hcall block hblock
    obtain ⟨hparts, hfirst⟩ := harranged.block_last hcall block hblock
    have hmem := mem_all_of_mem_children hn (mem_children_of_field? hblock)
    refine ⟨?_, hheader hmem hfirst⟩
    intro role hrole part hpart
    exact hbefore (mem_all_of_mem_children hn (mem_children_of_field? hpart)) hmem
      (hparts role hrole part hpart)

end WellSpanned

end Node
end Concrete
end RubyIndex
