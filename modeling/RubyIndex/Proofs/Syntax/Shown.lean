import RubyIndex.Proofs.Syntax.Layout

/-!
# Nodes and the terms they were laid out from

A node of the tree of a term shows some term at or below that one: it has its kind, its range and
its leaves, and its children show the terms below.  What holds of a term at every depth can so be
read off the nodes of its tree.  The ways down from the root to the leaves of a tree are as long as
its term is high.

* `Forest.Shows`, a node and the term it was laid out from;
* `Term.exists_shows`, every node of the tree of a term shows a term below;
* `Tree.Branch`, a way down to a leaf, and `Term.height`, the number of nodes on the longest;
* `Tree.Branch.length_le`, `Forest.Shows.exists_branch`, the two agree.
-/

namespace RubyIndex
namespace Syntax

/-! ## Nodes that show terms -/

namespace Forest

mutual

/-- A node with the kind and the range of a term, whose children show those of the term. -/
inductive Shows (f : Forest) : Nat → Term → Prop
  | intro {i : Nat} {n : Node} {t : Term} : f.nodes[i]? = some n → n.kind = t.kind →
      n.range = t.range → ShowsAll f n.children t.children → Shows f i t

/-- Children that show others one by one: the same leaves, and nodes that show the terms. -/
inductive ShowsAll (f : Forest) : List (Child Nat) → List (Child Term) → Prop
  | nil : ShowsAll f [] []
  | leaf {l : Leaf} {nodes : List (Child Nat)} {terms : List (Child Term)} :
      ShowsAll f nodes terms → ShowsAll f (.leaf l :: nodes) (.leaf l :: terms)
  | node {i : Nat} {t : Term} {nodes : List (Child Nat)} {terms : List (Child Term)} :
      Shows f i t → ShowsAll f nodes terms → ShowsAll f (.node i :: nodes) (.node t :: terms)

end

variable {f f' f'' : Forest}

/-- A forest in which the nodes of another one have kept all but their parents. -/
def Keeps (f f' : Forest) : Prop :=
  ∀ (i : Nat) (n : Node), f.nodes[i]? = some n →
    ∃ n' : Node, f'.nodes[i]? = some n' ∧ n'.kind = n.kind ∧ n'.range = n.range ∧
      n'.children = n.children

theorem Keeps.refl (f : Forest) : f.Keeps f :=
  fun _ n hn => ⟨n, hn, rfl, rfl, rfl⟩

theorem Keeps.trans (h : f.Keeps f') (h' : f'.Keeps f'') : f.Keeps f'' := by
  intro i n hn
  obtain ⟨n', hn', hkind, hrange, hchildren⟩ := h i n hn
  obtain ⟨n'', hn'', hkind', hrange', hchildren'⟩ := h' i n' hn'
  exact ⟨n'', hn'', hkind'.trans hkind, hrange'.trans hrange, hchildren'.trans hchildren⟩

theorem keeps_add {kind : Kind} {children : List (Child Nat)} {range : Option Range}
    (h : ∀ c, Child.node c ∈ children → c < f.size) : f.Keeps (f.add kind children range h) := by
  intro i n hn
  have hlt : i < f.size := (Array.getElem?_eq_some_iff.1 hn).1
  rw [getElem?_add, if_neg (Nat.ne_of_lt hlt), hn]
  split
  · exact ⟨_, rfl, rfl, rfl, rfl⟩
  · exact ⟨n, rfl, rfl, rfl, rfl⟩

-- along the terms, one case a constructor of the relation

mutual

theorem Shows.kept (hkeeps : f.Keeps f') : ∀ {t : Term} {i : Nat}, f.Shows i t → f'.Shows i t
  | ⟨_, children, _, _⟩, i, .intro hn hkind hrange hbelow => by
      obtain ⟨n', hn', hkind', hrange', hchildren'⟩ := hkeeps i _ hn
      refine .intro hn' (hkind'.trans hkind) (hrange'.trans hrange) ?_
      rw [hchildren']
      exact ShowsAll.kept hkeeps hbelow

theorem ShowsAll.kept (hkeeps : f.Keeps f') :
    ∀ {terms : List (Child Term)} {nodes : List (Child Nat)},
      f.ShowsAll nodes terms → f'.ShowsAll nodes terms
  | [], _, .nil => .nil
  | .leaf _ :: _, _, .leaf h => .leaf (ShowsAll.kept hkeeps h)
  | .node _ :: _, _, .node h h' => .node (Shows.kept hkeeps h) (ShowsAll.kept hkeeps h')

end

section Below

variable {nodes nodes' : List (Child Nat)} {terms terms' : List (Child Term)}

theorem ShowsAll.append (h : f.ShowsAll nodes terms) (h' : f.ShowsAll nodes' terms') :
    f.ShowsAll (nodes ++ nodes') (terms ++ terms') := by
  induction nodes generalizing terms with
  | nil =>
      cases h
      exact h'
  | cons c nodes ih =>
      cases h with
      | leaf h => exact .leaf (ih h)
      | node hnode h => exact .node hnode (ih h)

theorem ShowsAll.exists_cons {child : Child Term} (h : f.ShowsAll nodes (child :: terms)) :
    ∃ c rest, nodes = c :: rest ∧ f.ShowsAll rest terms := by
  cases h with
  | leaf h => exact ⟨_, _, rfl, h⟩
  | node _ h => exact ⟨_, _, rfl, h⟩

/-- A node among the children shows a term among those they show. -/
theorem ShowsAll.exists_term (h : f.ShowsAll nodes terms) {c : Nat} (hc : c ∈ Child.nodes nodes) :
    ∃ t, Child.node t ∈ terms ∧ f.Shows c t := by
  induction nodes generalizing terms with
  | nil => cases hc
  | cons child nodes ih =>
      cases h with
      | leaf h =>
          obtain ⟨t, ht, hshows⟩ := ih h hc
          exact ⟨t, List.mem_cons_of_mem _ ht, hshows⟩
      | node hnode h =>
          rcases List.mem_cons.1 hc with rfl | hc
          · exact ⟨_, List.mem_cons_self, hnode⟩
          · obtain ⟨t, ht, hshows⟩ := ih h hc
            exact ⟨t, List.mem_cons_of_mem _ ht, hshows⟩

/-- If the nodes and the terms among children are those of some items, the node of each item shows
the term of that item. -/
theorem ShowsAll.shows_of_mem (h : f.ShowsAll nodes terms) {ι : Type} {index : ι → Nat}
    {term : ι → Term} {items : List ι} (hnodes : Child.nodes nodes = items.map index)
    (hterms : Child.nodes terms = items.map term) {item : ι} (hitem : item ∈ items) :
    f.Shows (index item) (term item) := by
  induction nodes generalizing terms items with
  | nil =>
      obtain rfl : items = [] := List.map_eq_nil_iff.1 hnodes.symm
      cases hitem
  | cons child nodes ih =>
      cases h with
      | leaf h => exact ih h hnodes hterms hitem
      | node hnode h =>
          obtain ⟨first, rest, rfl, rfl, hrest⟩ := List.map_eq_cons_iff.1 hnodes.symm
          obtain ⟨rfl, hrest'⟩ := List.cons.inj hterms
          rcases List.mem_cons.1 hitem with rfl | hitem
          · exact hnode
          · exact ih h hrest.symm hrest' hitem

/-- A term among those shown is shown by a node among the children. -/
theorem ShowsAll.exists_node (h : f.ShowsAll nodes terms) {t : Term} (ht : Child.node t ∈ terms) :
    ∃ c ∈ Child.nodes nodes, f.Shows c t := by
  induction nodes generalizing terms with
  | nil =>
      cases h
      cases ht
  | cons child nodes ih =>
      cases h with
      | leaf h =>
          obtain ⟨c, hc, hshows⟩ := ih h (by simpa using ht)
          exact ⟨c, hc, hshows⟩
      | @node i _ _ _ hnode h =>
          rcases List.mem_cons.1 ht with heq | ht
          · cases heq
            exact ⟨i, List.mem_cons_self, hnode⟩
          · obtain ⟨c, hc, hshows⟩ := ih h ht
            exact ⟨c, List.mem_cons_of_mem _ hc, hshows⟩

end Below
end Forest

/-! ## Layout -/

namespace Term

namespace Placement

variable {f : Forest} {terms terms' : List (Child Term)}

/-- Placing children: the nodes that were there are kept, and the placed children show the terms. -/
structure Faithful (p : Placement f) (terms : List (Child Term)) : Prop where
  keeps : f.Keeps p.forest
  shows_children : p.forest.ShowsAll p.children terms

theorem faithful_none (f : Forest) : (none f).Faithful [] where
  keeps := .refl f
  shows_children := .nil

theorem Faithful.consLeaf {p : Placement f} (h : p.Faithful terms) (l : Leaf) :
    (p.consLeaf l).Faithful (.leaf l :: terms) where
  keeps := h.keeps
  shows_children := .leaf h.shows_children

theorem Faithful.append {p : Placement f} {q : Placement p.forest} (hp : p.Faithful terms)
    (hq : q.Faithful terms') : (p.append q).Faithful (terms ++ terms') where
  keeps := hp.keeps.trans hq.keeps
  shows_children := (hp.shows_children.kept hq.keeps).append hq.shows_children

theorem Faithful.close {p : Placement f} (h : p.Faithful terms) (kind : Kind)
    (range : Option Range) (documentedOn : Option Nat) :
    (p.close kind range documentedOn).Faithful [.node ⟨kind, terms, range, documentedOn⟩] where
  keeps := h.keeps.trans (Forest.keeps_add p.children_lt)
  shows_children := by
    refine .node (.intro (n := ⟨kind, p.children, range, Option.none⟩) ?_ rfl rfl ?_) .nil
    · exact (Forest.getElem?_add p.children_lt _).trans (if_pos rfl)
    · exact h.shows_children.kept (Forest.keeps_add p.children_lt)

end Placement

mutual

theorem faithful_place (f : Forest) : ∀ t : Term, (place f t).Faithful [.node t]
  | ⟨kind, children, range, documentedOn⟩ =>
      (faithful_placeAll f children).close kind range documentedOn

theorem faithful_placeAll (f : Forest) :
    ∀ children : List (Child Term), (placeAll f children).Faithful children
  | [] => Placement.faithful_none f
  | .leaf l :: rest => (faithful_placeAll f rest).consLeaf l
  | .node t :: rest => (faithful_place f t).append (faithful_placeAll (place f t).forest rest)

end

theorem shows_root (t : Term) : t.toTree.Shows t.toTree.root t := by
  have hroot : t.toTree.root ∈ (place .empty t).roots := by
    rw [roots_place]
    exact List.mem_cons_self
  obtain ⟨u, hu, hshows⟩ := (faithful_place .empty t).shows_children.exists_term hroot
  cases List.mem_singleton.1 hu
  exact hshows

end Term

/-! ## Trees -/

namespace Tree

variable {t : Tree} {i : Nat} {u : Term}

theorem showsAll_children (h : t.Shows i u) : t.ShowsAll (t.children i) u.children := by
  obtain ⟨hn, -, -, hbelow⟩ := h
  have hchildren : t.children i = _ := congrArg (fun n => n.elim [] Node.children) hn
  rwa [hchildren]

theorem kind_of_shows (h : t.Shows i u) : t.kind i = u.kind := by
  obtain ⟨hn, hkind, -, -⟩ := h
  exact (congrArg (fun n => n.elim .other Node.kind) hn).trans hkind

theorem shows_below (h : t.Shows i u) {c : Nat} (hc : c ∈ t.childNodes i) :
    ∃ v, Child.node v ∈ u.children ∧ t.Shows c v := by
  exact (showsAll_children h).exists_term hc

theorem exists_child_shows (h : t.Shows i u) {v : Term} (hv : Child.node v ∈ u.children) :
    ∃ c ∈ t.childNodes i, t.Shows c v := by
  exact (showsAll_children h).exists_node hv

end Tree

/-- What holds of a term and is handed down to those below holds of the terms that the nodes of its
tree show. -/
theorem Term.exists_shows {P : Term → Prop} {t : Term} (ht : P t)
    (hbelow : ∀ u, P u → ∀ v, Child.node v ∈ u.children → P v) {i : Nat}
    (hi : i < t.toTree.size) : ∃ u, P u ∧ t.toTree.Shows i u := by
  have hwalk : ∀ {j : Nat} {u : Term}, P u → t.toTree.Shows j u → ∀ {k : Nat},
      k ∈ t.toTree.preorder j → ∃ v, P v ∧ t.toTree.Shows k v := by
    intro j
    induction j using Nat.strongRecOn with
    | ind j ih =>
        intro u hu hshows k hk
        rw [Tree.preorder_eq, List.mem_cons, List.mem_flatMap] at hk
        rcases hk with rfl | ⟨c, hc, hk⟩
        · exact ⟨u, hu, hshows⟩
        · obtain ⟨v, hv, hc'⟩ := Tree.shows_below hshows hc
          exact ih c (Tree.childNodes_lt hc) (hbelow u hu v hv) hc' hk
  have hperm := Tree.preorder_root_perm t.linked_toTree
    fun i hi => (t.parent?_toTree_eq_none_iff hi).1
  exact hwalk ht t.shows_root (hperm.mem_iff.2 (List.mem_range.2 hi))

/-! ## Height -/

namespace Term

mutual

/-- The number of nodes on the longest way down a term. -/
def height : Term → Nat
  | ⟨_, children, _, _⟩ => heightOf children + 1

def heightOf : List (Child Term) → Nat
  | [] => 0
  | .leaf _ :: rest => heightOf rest
  | .node t :: rest => max (height t) (heightOf rest)

end

theorem height_eq (t : Term) : t.height = heightOf t.children + 1 := by
  cases t
  rw [height]

theorem heightOf_le_iff {children : List (Child Term)} {k : Nat} :
    heightOf children ≤ k ↔ ∀ t, Child.node t ∈ children → t.height ≤ k := by
  induction children with
  | nil => simp [heightOf]
  | cons c children ih =>
      cases c with
      | leaf l => simp [heightOf, ih]
      | node t =>
          rw [heightOf, Nat.max_le, ih]
          simp

theorem height_lt_of_mem {t u : Term} (h : Child.node u ∈ t.children) : u.height < t.height := by
  rw [t.height_eq]
  exact Nat.lt_succ_of_le (heightOf_le_iff.1 (Nat.le_refl _) u h)

theorem heightOf_of_nodes_eq_nil {children : List (Child Term)} (h : Child.nodes children = []) :
    heightOf children = 0 := by
  refine Nat.le_zero.1 (heightOf_le_iff.2 ?_)
  intro t ht
  rw [← Child.mem_nodes, h] at ht
  cases ht

/-- A term with terms below is one higher than one of these. -/
theorem exists_height_eq {children : List (Child Term)} (h : Child.nodes children ≠ []) :
    ∃ t, Child.node t ∈ children ∧ heightOf children = t.height := by
  induction children with
  | nil => exact absurd rfl h
  | cons c children ih =>
      cases c with
      | leaf l =>
          obtain ⟨t, ht, heq⟩ := ih h
          exact ⟨t, List.mem_cons_of_mem _ ht, heq⟩
      | node u =>
          by_cases hrest : Child.nodes children = []
          · have hzero := heightOf_of_nodes_eq_nil hrest
            exact ⟨u, List.mem_cons_self, by simp [heightOf, hzero]⟩
          · obtain ⟨t, ht, heq⟩ := ih hrest
            rcases Nat.le_total u.height t.height with hle | hle
            · exact ⟨t, List.mem_cons_of_mem _ ht, by simp [heightOf, heq, hle]⟩
            · exact ⟨u, List.mem_cons_self, by simp [heightOf, heq, hle]⟩

end Term

/-- A way down a tree from a node to a leaf, each node a child of the one before it. -/
inductive Tree.Branch (t : Tree) : Nat → List Nat → Prop
  | leaf {i : Nat} : t.childNodes i = [] → Branch t i [i]
  | step {i c : Nat} {path : List Nat} : c ∈ t.childNodes i → Branch t c path →
      Branch t i (i :: path)

/-- No way down from a node is longer than the term it shows is high. -/
theorem Tree.Branch.length_le {t : Tree} {i : Nat} {path : List Nat} (h : t.Branch i path)
    {u : Term} (hshows : t.Shows i u) : path.length ≤ u.height := by
  induction h generalizing u with
  | leaf _ =>
      rw [u.height_eq]
      exact Nat.succ_le_succ (Nat.zero_le _)
  | step hc _ ih =>
      obtain ⟨v, hv, hchild⟩ := Tree.shows_below hshows hc
      exact Nat.lt_of_le_of_lt (ih hchild) (Term.height_lt_of_mem hv)

/-- One of them is as long. -/
theorem Forest.Shows.exists_branch {t : Tree} {i : Nat} {u : Term} (h : t.Shows i u) :
    ∃ path, t.Branch i path ∧ path.length = u.height := by
  induction i using Nat.strongRecOn generalizing u with
  | ind i ih =>
      rw [u.height_eq]
      by_cases hbelow : Child.nodes u.children = []
      · have hleaf : t.childNodes i = [] := by
          refine List.eq_nil_iff_forall_not_mem.2 ?_
          intro c hc
          obtain ⟨v, hv, -⟩ := Tree.shows_below h hc
          rw [← Child.mem_nodes, hbelow] at hv
          cases hv
        exact ⟨[i], .leaf hleaf, by simp [Term.heightOf_of_nodes_eq_nil hbelow]⟩
      · obtain ⟨v, hv, heq⟩ := Term.exists_height_eq hbelow
        obtain ⟨c, hc, hchild⟩ := Tree.exists_child_shows h hv
        obtain ⟨path, hpath, hlength⟩ := ih c (Tree.childNodes_lt hc) hchild
        exact ⟨i :: path, .step hc hpath, by simp [hlength, heq]⟩

end Syntax
end RubyIndex
