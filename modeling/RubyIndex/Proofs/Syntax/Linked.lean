import RubyIndex.Syntax.Tree

/-!
# Links between nodes

A node knows its parent and its children.  The two agree in every forest that is built by adding
nodes above ones that have no parent yet.

* `Forest.Built`, the forests that come about in this way;
* `Forest.Linked`, parents and children agree and no child is named twice;
* `Forest.linked_add`, `Forest.linked_of_built`, adding such a node keeps the links, and so does
  building.
-/

namespace RubyIndex
namespace Syntax

/-! ## Nodes among children -/

namespace Child

variable {α : Type}

/-- The nodes among some children. -/
def nodes (children : List (Child α)) : List α :=
  children.filterMap Child.node?

@[simp] theorem nodes_leaf (l : Leaf) (rest : List (Child α)) :
    nodes (.leaf l :: rest) = nodes rest :=
  rfl

@[simp] theorem nodes_node (a : α) (rest : List (Child α)) :
    nodes (.node a :: rest) = a :: nodes rest :=
  rfl

@[simp] theorem nodes_nil : nodes ([] : List (Child α)) = [] := rfl

@[simp] theorem nodes_ofOption (a : Option α) (rest : List (Child α)) :
    nodes (.ofOption a :: rest) = a.toList ++ nodes rest := by
  cases a <;> simp [ofOption]

@[simp] theorem nodes_map (values : List α) : nodes (values.map .node) = values := by
  induction values with
  | nil => rfl
  | cons a values ih => simp [ih]

@[simp] theorem nodes_append (children rest : List (Child α)) :
    nodes (children ++ rest) = nodes children ++ nodes rest :=
  List.filterMap_append

theorem count_nodes [DecidableEq α] (children : List (Child α)) (a : α) :
    (nodes children).count a = children.count (.node a) := by
  induction children with
  | nil => rfl
  | cons c children ih =>
      cases c with
      | leaf l => simp [ih]
      | node b => simp [List.count_cons, ih]

theorem mem_nodes {children : List (Child α)} {a : α} :
    a ∈ nodes children ↔ Child.node a ∈ children := by
  induction children with
  | nil => simp [nodes]
  | cons c children ih =>
      cases c with
      | leaf l => simp [ih]
      | node b => simp [ih]

end Child

namespace Forest

variable {f : Forest}

def parent? (f : Forest) (i : Nat) : Option Nat :=
  (f.nodes[i]?).bind Node.parent

def childNodes (f : Forest) (i : Nat) : List Nat :=
  Child.nodes ((f.nodes[i]?).elim [] Node.children)

theorem parent?_gt {i p : Nat} (h : f.parent? i = some p) : i < p ∧ p < f.size := by
  rcases Option.bind_eq_some_iff.1 h with ⟨n, hn, hp⟩
  exact f.parent_gt i n p hn hp

theorem parent?_of_size_le {i : Nat} (h : f.size ≤ i) : f.parent? i = none := by
  unfold parent?
  rw [Array.getElem?_eq_none h]
  rfl

theorem attachable_iff {children : List (Child Nat)} :
    f.attachable children = true ↔
      (∀ i ∈ Child.nodes children, i < f.size ∧ f.parent? i = none) ∧
      (Child.nodes children).Nodup := by
  have hchild : ∀ i, ((f.nodes[i]?).elim false fun n => n.parent.isNone) = true ↔
      i < f.size ∧ f.parent? i = none := by
    intro i
    unfold parent? size
    by_cases hi : i < f.nodes.size <;> simp [hi]
  simp only [attachable, Bool.and_eq_true, List.all_eq_true, decide_eq_true_eq, hchild,
    Child.nodes]

/-! ## Adding a node -/

section Add

variable {kind : Kind} {children : List (Child Nat)} {range : Option Range}

theorem getElem?_add (h : ∀ c, Child.node c ∈ children → c < f.size) (i : Nat) :
    (f.add kind children range h).nodes[i]? =
      if i = f.size then some ⟨kind, children, range, none⟩
      else if i ∈ Child.nodes children then
        (f.nodes[i]?).map fun n => { n with parent := some f.size }
      else f.nodes[i]? := by
  simp only [add, Array.getElem?_push, size_attach, getElem?_attach, Child.mem_nodes]
  rfl

/-- The new node has the children that were given, the others keep theirs. -/
theorem childNodes_add (h : ∀ c, Child.node c ∈ children → c < f.size) (i : Nat) :
    (f.add kind children range h).childNodes i =
      if i = f.size then Child.nodes children else f.childNodes i := by
  unfold childNodes
  rw [getElem?_add]
  split
  · rfl
  · split
    · cases f.nodes[i]? <;> rfl
    · rfl

/-- The new node is the parent of its children, the other nodes keep theirs. -/
theorem parent?_add (h : ∀ c, Child.node c ∈ children → c < f.size) (i : Nat) :
    (f.add kind children range h).parent? i =
      if i ∈ Child.nodes children then some f.size else f.parent? i := by
  by_cases hnew : i = f.size
  · -- the new node itself, which is not among its children
    have hnot : i ∉ Child.nodes children := by
      intro hmem
      have := h i (Child.mem_nodes.1 hmem)
      omega
    have hnone := parent?_of_size_le (f := f) (Nat.le_of_eq hnew.symm)
    rw [if_neg hnot, hnone]
    unfold parent?
    rw [getElem?_add, if_pos hnew]
    rfl
  · unfold parent?
    rw [getElem?_add, if_neg hnew]
    split
    · rename_i hmem
      have hlt : i < f.nodes.size := h i (Child.mem_nodes.1 hmem)
      simp [hlt]
    · rfl

end Add

/-! ## Links -/

/-- Parents and children agree, and no child is named twice. -/
structure Linked (f : Forest) : Prop where
  mem_childNodes_iff : ∀ {p c : Nat}, c ∈ f.childNodes p ↔ f.parent? c = some p
  nodup : ∀ p, (f.childNodes p).Nodup

theorem linked_empty : empty.Linked where
  mem_childNodes_iff := by simp [empty, childNodes, parent?, Child.nodes]
  nodup := by simp [empty, childNodes, Child.nodes]

/-- A node above ones without a parent keeps the links. -/
theorem linked_add (hf : f.Linked) {kind : Kind} {children : List (Child Nat)}
    {range : Option Range} (h : f.attachable children = true) :
    (f.add kind children range (lt_size_of_attachable h)).Linked where
  mem_childNodes_iff := by
    intro p c
    have hloose := (attachable_iff.1 h).1
    rw [childNodes_add, parent?_add]
    by_cases hmem : c ∈ Child.nodes children
    · -- a child of the new node, and of no node before
      have hold : c ∉ f.childNodes p := by
        intro hc
        have hparent := hf.mem_childNodes_iff.1 hc
        rw [(hloose c hmem).2] at hparent
        cases hparent
      by_cases hp : p = f.size
      · simp [hp, hmem]
      · have hp' : ¬ f.size = p := fun e => hp e.symm
        simp [hp, hp', hmem, hold]
    · -- no old node has the new one as its parent
      rw [if_neg hmem]
      by_cases hp : p = f.size
      · have hparent : f.parent? c ≠ some p := by
          intro hc
          have := (parent?_gt hc).2
          omega
        rw [if_pos hp]
        exact iff_of_false hmem hparent
      · rw [if_neg hp]
        exact hf.mem_childNodes_iff
  nodup := by
    intro p
    rw [childNodes_add]
    split
    · exact (attachable_iff.1 h).2
    · exact hf.nodup p

/-! ## Building -/

/-- Forests that come about by adding nodes one after the other, each above nodes that are there and
have no parent yet. -/
inductive Built : Forest → Prop
  | empty : Built empty
  | add {f f' : Forest} {kind : Kind} {children : List (Child Nat)} {range : Option Range} :
      Built f → f.add? kind children range = some f' → Built f'

theorem linked_of_built (h : f.Built) : f.Linked := by
  induction h with
  | empty => exact linked_empty
  | add _ hadd ih =>
      unfold add? at hadd
      split at hadd
      · rename_i hattachable
        cases hadd
        exact linked_add ih hattachable
      · cases hadd

end Forest

namespace Tree

variable {t : Tree} {i slot c : Nat}

theorem child?_of_childNode? (h : t.childNode? i slot = some c) :
    t.child? i slot = some (.node c) := by
  obtain ⟨child, hslot, hnode⟩ := Option.bind_eq_some_iff.1 h
  cases child with
  | leaf l => cases hnode
  | node d =>
      cases hnode
      exact hslot

theorem mem_childNodes_of_childNode? (h : t.childNode? i slot = some c) : c ∈ t.childNodes i :=
  List.mem_filterMap.2 ⟨.node c, List.mem_of_getElem? (child?_of_childNode? h), rfl⟩

end Tree
end Syntax
end RubyIndex
