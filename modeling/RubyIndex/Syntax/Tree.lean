import RubyIndex.Position
import RubyIndex.Syntax.Kind

/-!
# Syntax trees

The nodes of a document stand in one array and refer to each other by index.  A node is added after
its children, so children have smaller indices and parents larger ones; every walk along a tree
ends for that reason.

* `Forest`, the nodes built so far, and `Forest.add`, which adds a node above its children;
* `Tree`, a forest with a root;
* `Tree.kind`, `Tree.childNode?`, `Tree.parent?` and the like read one node.
-/

namespace RubyIndex
namespace Syntax

/-! ## Nodes -/

/-- A child that is not a node. -/
inductive Leaf
  | nil
  | symbol (name : String)
  | str (value : String)
  | integer (value : Int)
  /-- A number by the bits of its 64-bit form. -/
  | float (bits : UInt64)
  deriving DecidableEq, Repr, Inhabited

/-- A child: a node, given in whatever form `α` the tree has for nodes, or a leaf. -/
inductive Child (α : Type)
  | node (value : α)
  | leaf (value : Leaf)
  deriving DecidableEq, Repr, Inhabited

def Child.node? {α : Type} : Child α → Option α
  | node a => some a
  | leaf _ => none

def Child.leaf? {α : Type} : Child α → Option Leaf
  | node _ => none
  | leaf l => some l

/-- A node child, or nil in its place. -/
def Child.ofOption {α : Type} : Option α → Child α
  | some a => .node a
  | none => .leaf .nil

structure Node where
  kind : Kind
  children : List (Child Nat)
  /-- Nothing for a node that was not written. -/
  range : Option Range
  parent : Option Nat
  deriving DecidableEq, Repr, Inhabited

/-! ## Forests -/

/-- Nodes that may still lack a parent. -/
structure Forest where
  nodes : Array Node
  child_lt : ∀ (i : Nat) (n : Node), nodes[i]? = some n → ∀ c, Child.node c ∈ n.children → c < i
  parent_gt : ∀ (i : Nat) (n : Node) (p : Nat), nodes[i]? = some n → n.parent = some p →
    i < p ∧ p < nodes.size

namespace Forest

def empty : Forest where
  nodes := #[]
  child_lt := by simp
  parent_gt := by simp

def size (f : Forest) : Nat :=
  f.nodes.size

/-- Makes `owner` the parent of one child. -/
def attachChild (owner : Nat) (nodes : Array Node) : Child Nat → Array Node
  | .node id => nodes.modify id fun n => { n with parent := some owner }
  | .leaf _ => nodes

/-- Makes `owner` the parent of its children. -/
def attach (owner : Nat) (children : List (Child Nat)) (nodes : Array Node) : Array Node :=
  children.foldl (attachChild owner) nodes

theorem size_attachChild (owner : Nat) (nodes : Array Node) (c : Child Nat) :
    (attachChild owner nodes c).size = nodes.size := by
  cases c <;> simp [attachChild]

theorem size_attach (owner : Nat) (children : List (Child Nat)) (nodes : Array Node) :
    (attach owner children nodes).size = nodes.size := by
  induction children generalizing nodes with
  | nil => rfl
  | cons c rest ih =>
      simp only [attach, List.foldl_cons]
      exact (ih _).trans (size_attachChild owner nodes c)

/-- Attaching changes the parent of the children and nothing else. -/
theorem getElem?_attach (owner : Nat) (children : List (Child Nat)) (nodes : Array Node) (i : Nat) :
    (attach owner children nodes)[i]? =
      if Child.node i ∈ children then (nodes[i]?).map fun n => { n with parent := some owner }
      else nodes[i]? := by
  induction children generalizing nodes with
  | nil => simp [attach]
  | cons c rest ih =>
      have step : attach owner (c :: rest) nodes = attach owner rest (attachChild owner nodes c) :=
        rfl
      rw [step, ih]
      cases c with
      | leaf l => simp [attachChild]
      | node id =>
          simp only [attachChild, Array.getElem?_modify, List.mem_cons, Child.node.injEq]
          by_cases hid : id = i
          · subst hid
            cases nodes[id]? <;> simp
          · have hid' : ¬ i = id := fun h => hid h.symm
            simp [hid, hid']

/-- Adds a node above children that are already there. -/
def add (f : Forest) (kind : Kind) (children : List (Child Nat)) (range : Option Range)
    (h : ∀ c, Child.node c ∈ children → c < f.size) : Forest where
  nodes := (attach f.size children f.nodes).push ⟨kind, children, range, none⟩
  child_lt := by
    intro i n hn c hc
    rw [Array.getElem?_push, size_attach] at hn
    split at hn
    · rename_i hi
      cases hn
      have := h c hc
      unfold size at this
      omega
    · rw [getElem?_attach] at hn
      split at hn
      · obtain ⟨m, hm, rfl⟩ := Option.map_eq_some_iff.1 hn
        exact f.child_lt i m hm c hc
      · exact f.child_lt i n hn c hc
  parent_gt := by
    intro i n p hn hp
    rw [Array.size_push, size_attach]
    rw [Array.getElem?_push, size_attach] at hn
    split at hn
    · cases hn
      simp at hp
    · rw [getElem?_attach] at hn
      split at hn
      · rename_i hi hmem
        obtain ⟨m, hm, rfl⟩ := Option.map_eq_some_iff.1 hn
        cases hp
        have := h i hmem
        unfold size at this ⊢
        omega
      · have := f.parent_gt i n p hn hp
        omega

@[simp] theorem size_add (f : Forest) (kind : Kind) (children : List (Child Nat))
    (range : Option Range) (h : ∀ c, Child.node c ∈ children → c < f.size) :
    (f.add kind children range h).size = f.size + 1 := by
  simp [add, size, size_attach]

/-- Whether every node child is there, has no parent yet and is named once. -/
def attachable (f : Forest) (children : List (Child Nat)) : Bool :=
  let ids := children.filterMap Child.node?
  ids.all (fun id => (f.nodes[id]?).elim false fun n => n.parent.isNone) && decide ids.Nodup

theorem lt_size_of_attachable {f : Forest} {children : List (Child Nat)}
    (h : f.attachable children = true) : ∀ c, Child.node c ∈ children → c < f.size := by
  intro c hc
  simp only [attachable, Bool.and_eq_true, List.all_eq_true] at h
  have hmem : c ∈ children.filterMap Child.node? :=
    List.mem_filterMap.2 ⟨.node c, hc, rfl⟩
  have hc' := h.1 c hmem
  by_cases hlt : c < f.nodes.size
  · exact hlt
  · rw [Array.getElem?_eq_none (by omega)] at hc'
    simp at hc'

/-- Adds a node, unless a child is missing or belongs to another node. -/
def add? (f : Forest) (kind : Kind) (children : List (Child Nat)) (range : Option Range) :
    Option Forest :=
  if h : f.attachable children = true then
    some (f.add kind children range (lt_size_of_attachable h))
  else none

end Forest

/-! ## Trees -/

/-- A forest with a root.  Nodes that are not below the root may be there too. -/
structure Tree extends Forest where
  root : Nat
  root_lt : root < nodes.size

/-- A tree of one node. -/
instance : Inhabited Tree where
  default :=
    { Forest.empty.add .other [] none (by simp) with
      root := 0
      root_lt := by decide }

/-- The forest as the tree below one of its nodes. -/
def Forest.rootedAt? (f : Forest) (root : Nat) : Option Tree :=
  if h : root < f.nodes.size then some { f with root := root, root_lt := h } else none

namespace Tree

def size (t : Tree) : Nat :=
  t.nodes.size

def node? (t : Tree) (i : Nat) : Option Node :=
  t.nodes[i]?

def kind (t : Tree) (i : Nat) : Kind :=
  (t.node? i).elim .other Node.kind

def children (t : Tree) (i : Nat) : List (Child Nat) :=
  (t.node? i).elim [] Node.children

def range? (t : Tree) (i : Nat) : Option Range :=
  (t.node? i).bind Node.range

def parent? (t : Tree) (i : Nat) : Option Nat :=
  (t.node? i).bind Node.parent

/-- The children that are nodes. -/
def childNodes (t : Tree) (i : Nat) : List Nat :=
  (t.children i).filterMap Child.node?

def child? (t : Tree) (i slot : Nat) : Option (Child Nat) :=
  (t.children i)[slot]?

/-- The child in a slot, if it is a node. -/
def childNode? (t : Tree) (i slot : Nat) : Option Nat :=
  (t.child? i slot).bind Child.node?

/-- The child in a slot, if it is a leaf. -/
def leaf? (t : Tree) (i slot : Nat) : Option Leaf :=
  (t.child? i slot).bind Child.leaf?

/-- The symbol in a slot. -/
def symbol? (t : Tree) (i slot : Nat) : Option String :=
  match t.leaf? i slot with
  | some (.symbol s) => some s
  | _ => none

/-- Whether the range of a node holds a position; without a range it holds none. -/
def includes (t : Tree) (i : Nat) (p : Position) : Bool :=
  (t.range? i).elim false fun r => r.includes p

theorem parent?_gt {t : Tree} {i p : Nat} (h : t.parent? i = some p) : i < p ∧ p < t.size := by
  obtain ⟨n, hn, hp⟩ := Option.bind_eq_some_iff.1 h
  exact t.parent_gt i n p hn hp

theorem lt_of_mem_children {t : Tree} {i c : Nat} (h : Child.node c ∈ t.children i) : c < i := by
  unfold children at h
  cases hn : t.node? i with
  | none => simp [hn] at h
  | some n =>
      rw [hn] at h
      exact t.child_lt i n hn c h

theorem childNodes_lt {t : Tree} {i c : Nat} (h : c ∈ t.childNodes i) : c < i := by
  obtain ⟨child, hmem, hc⟩ := List.mem_filterMap.1 h
  cases child with
  | leaf l => simp [Child.node?] at hc
  | node id =>
      cases hc
      exact lt_of_mem_children hmem

theorem childNode?_lt {t : Tree} {i slot c : Nat} (h : t.childNode? i slot = some c) : c < i := by
  obtain ⟨child, hchild, hc⟩ := Option.bind_eq_some_iff.1 h
  cases child with
  | leaf l => simp [Child.node?] at hc
  | node id =>
      cases hc
      exact lt_of_mem_children (List.mem_of_getElem? hchild)

end Tree
end Syntax
end RubyIndex
