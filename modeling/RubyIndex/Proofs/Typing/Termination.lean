import Mathlib.Data.Finset.Card
import Mathlib.Data.Finset.Range
import Mathlib.Logic.Relation
import Mathlib.Order.WellFounded
import RubyIndex.Proofs.Lowering.Within
import RubyIndex.Typing.Inference

/-!
# Type inference comes to an end

The types of a node are those of its origin, and so on from origin to origin.  Most origins are
children, and a walk down the tree ends.  A local variable leads to an assignment elsewhere, but
that assignment ends before the variable begins, and so does every variable in it: the variables on
the way stand further and further to the front of the text.

* `Question`, `Asks`, what has to be known before something else;
* `acc_of_below`, an end for the variables below a node is one for the node;
* `acc_localVar`, in a spanned tree variables come to an end;
* `typesWithin_succ`, the number of nodes is steps enough;
* `inference_wellFounded`, so the types of all nodes are what their origins make them.
-/

namespace RubyIndex

theorem Position.wellFounded_lt : WellFounded fun p q : Position => p < q := by
  refine Subrelation.wf ?_
    (measure fun p : Position => p.line.toNat * UInt32.size + p.column.toNat).wf
  intro p q h
  have hcolumn : p.column.toNat < UInt32.size := p.column.toNat_lt
  have hcolumn' : q.column.toNat < UInt32.size := q.column.toNat_lt
  show p.line.toNat * UInt32.size + p.column.toNat < q.line.toNat * UInt32.size + q.column.toNat
  rw [Position.lt_iff] at h
  simp only [UInt32.size] at *
  omega

namespace Typing

open Concrete (Source)
open Syntax (Kind Tree)

variable {t : Tree} {i j : Nat}

/-! ## Origins -/

/-- The value of an assignment that ends before a variable begins. -/
structure Precedes (t : Tree) (j i : Nat) : Prop where
  isVariable : t.kind i = .localVar
  assigned : ∃ a o r, j ∈ t.childNodes a ∧ t.range? a = some o ∧ t.range? i = some r ∧
    o.stop ≤ r.start

/-- An assignment that reaches a variable ends before it. -/
theorem precedes_of_reachingAssignment {name : String} {a : Nat} (hkind : t.kind i = .localVar)
    (ha : reachingAssignment? t i name = some a) (hvalue : t.childNode? a 1 = some j) :
    Precedes t j i := by
  obtain ⟨r, hr, hlast⟩ := Option.bind_eq_some_iff.1 ha
  have hreaches := (List.mem_filter.1 (List.mem_of_getLast? hlast)).2
  simp only [reaches, Bool.and_eq_true] at hreaches
  obtain ⟨⟨-, hends⟩, -⟩ := hreaches
  cases ho : t.range? a with
  | none => simp [ho] at hends
  | some o =>
      have hle : o.stop ≤ r.start := by simpa [ho] using hends
      exact ⟨hkind, a, o, r, Tree.mem_childNodes_of_childNode? hvalue, ho, hr, hle⟩

/-- The origin of a variable is the value of an assignment before it, any other origin a child. -/
theorem origin?_cases (h : origin? t i = some j) :
    (t.kind i ≠ .localVar ∧ j ∈ t.childNodes i) ∨ Precedes t j i := by
  have hslot : ∀ {slot : Nat}, t.kind i ≠ .localVar → t.childNode? i slot = some j →
      (t.kind i ≠ .localVar ∧ j ∈ t.childNodes i) ∨ Precedes t j i :=
    fun hkind hchild => Or.inl ⟨hkind, Tree.mem_childNodes_of_childNode? hchild⟩
  unfold origin? at h
  split at h
  · rename_i hkind
    obtain ⟨name, -, hvalue⟩ := Option.bind_eq_some_iff.1 h
    split at hvalue
    · cases hvalue
    · obtain ⟨a, ha, hchild⟩ := Option.bind_eq_some_iff.1 hvalue
      exact Or.inr (precedes_of_reachingAssignment hkind ha hchild)
  · rename_i hkind
    rw [Tree.receiver?, hkind] at h
    exact hslot (by simp [hkind]) h
  · rename_i hkind
    rw [Tree.receiver?, hkind] at h
    exact hslot (by simp [hkind]) h
  · rename_i hkind
    exact hslot (by simp [hkind]) (Option.filter_eq_some_iff.1 h).1
  · rename_i hkind
    exact Or.inl ⟨by simp [hkind], List.mem_of_getLast? h⟩
  · rename_i hkind
    exact hslot (by simp [hkind]) h
  · rename_i hkind
    exact hslot (by simp [hkind]) h
  · rename_i hkind
    exact hslot (by simp [hkind]) h
  · rename_i hkind
    exact hslot (by simp [hkind]) h
  · cases h

/-! ## Questions -/

/-- What can be asked of a node: its types, or the types that a call is dispatched on. -/
inductive Question
  | types (i : Nat)
  | receivers (i : Nat)

/-- The question that is asked on the way to the answer of another one. -/
inductive Asks (t : Tree) : Question → Question → Prop
  | origin {i j : Nat} : origin? t i = some j → Asks t (.types j) (.types i)
  | receiver {i j : Nat} : t.kind i = .send ∨ t.kind i = .safeSend → t.receiver? i = some j →
      Asks t (.types j) (.receivers i)
  | call {i c : Nat} : t.kind i = .block → t.childNode? i 0 = some c →
      Asks t (.receivers c) (.receivers i)

/-- A node comes to an end if the variables at and below it do. -/
theorem acc_of_below (h : ∀ k ∈ t.preorder j, t.kind k = .localVar → Acc (Asks t) (.types k)) :
    Acc (Asks t) (.types j) := by
  induction j using Nat.strongRecOn with
  | ind j ih =>
      refine ⟨_, ?_⟩
      rintro _ (⟨horigin⟩ | _ | _)
      rename_i c
      -- an origin below the node has fewer variables below it, any other belongs to a variable
      rcases origin?_cases horigin with ⟨-, hchild⟩ | hprecedes
      · refine ih c (Tree.childNodes_lt hchild) ?_
        intro k hk
        refine h k ?_
        rw [Tree.preorder_eq, List.mem_cons, List.mem_flatMap]
        exact Or.inr ⟨c, hchild, hk⟩
      · have hself : j ∈ t.preorder j := by
          rw [Tree.preorder_eq]
          exact List.mem_cons_self
        exact (h j hself hprecedes.isVariable).inv (.origin horigin)

/-- Every variable in the value of an assignment begins before those that the assignment reaches. -/
theorem start_lt_of_precedes (ht : t.Spanned) (h : Precedes t j i) {k : Nat}
    (hk : k ∈ t.preorder j) (hkind : t.kind k = .localVar) :
    ∃ rk r, t.range? k = some rk ∧ t.range? i = some r ∧ rk.start < r.start := by
  obtain ⟨-, a, o, r, hvalue, ho, hr, hends⟩ := h
  obtain ⟨rk, hrk, hfilled⟩ := ht.filled hkind
  have hbelow : k ∈ t.descendants a := by
    rw [Tree.descendants, Tree.visit_eq_flatMap]
    exact List.mem_flatMap.2 ⟨j, hvalue, hk⟩
  have hinside := Range.contains_iff.1 (ht.inside hbelow hrk ho)
  refine ⟨rk, r, hrk, hr, ?_⟩
  calc rk.start < rk.stop := hfilled
    _ ≤ o.stop := hinside.2
    _ ≤ r.start := hends

/-- Variables come to an end: from one to the next the text is left further behind. -/
theorem acc_localVar (ht : t.Spanned) (hkind : t.kind i = .localVar) :
    Acc (Asks t) (.types i) := by
  obtain ⟨r, hr, -⟩ := ht.filled hkind
  -- by the place where the variable begins, as there are only so many before it
  generalize hp : r.start = p
  induction p using Position.wellFounded_lt.induction generalizing i r with
  | _ p ih =>
      subst hp
      refine ⟨_, ?_⟩
      rintro _ (⟨horigin⟩ | _ | _)
      rcases origin?_cases horigin with ⟨hother, -⟩ | hprecedes
      · exact absurd hkind hother
      · refine acc_of_below ?_
        intro k hk hvariable
        obtain ⟨rk, r', hrk, hr', hlt⟩ := start_lt_of_precedes ht hprecedes hk hvariable
        cases hr.symm.trans hr'
        exact ih rk.start hlt hvariable rk hrk rfl

theorem wellFounded_asks (ht : t.Spanned) : WellFounded (Asks t) := by
  have htypes : ∀ i, Acc (Asks t) (.types i) := fun i =>
    acc_of_below fun _ _ hkind => acc_localVar ht hkind
  refine ⟨?_⟩
  rintro (i | i)
  · exact htypes i
  · -- the call of a block is below the block
    induction i using Nat.strongRecOn with
    | ind i ih =>
        refine ⟨_, ?_⟩
        rintro _ (_ | ⟨-, -⟩ | ⟨-, hcall⟩)
        · exact htypes _
        · exact ih _ (Tree.childNode?_lt hcall)

/-! ## Steps -/

theorem lt_size_of_asks {q : Question} (h : Asks t (.types j) q) : j < t.size := by
  have hchild : ∀ {a : Nat}, j ∈ t.childNodes a → j < t.size := by
    intro a ha
    have hlt := Syntax.Forest.childNodes_lt (f := t.toForest) ha
    exact Nat.lt_trans hlt.1 hlt.2
  rcases h with horigin | ⟨hkind, hreceiver⟩ | _
  · rcases origin?_cases horigin with ⟨-, hmem⟩ | ⟨-, a, -, -, hmem, -⟩
    · exact hchild hmem
    · exact hchild hmem
  · rw [Tree.receiver?] at hreceiver
    rcases hkind with hkind | hkind
    · rw [hkind] at hreceiver
      exact hchild (Tree.mem_childNodes_of_childNode? hreceiver)
    · rw [hkind] at hreceiver
      exact hchild (Tree.mem_childNodes_of_childNode? hreceiver)

/-- As many steps as there are nodes on the way are enough. -/
theorem typesWithin_succ (s : Store) (hwf : WellFounded (Asks t)) {nodes : Finset Nat}
    (h : ∀ k, Relation.ReflTransGen (Asks t) (.types k) (.types i) → k ∈ nodes) :
    typesWithin s t (nodes.card + 1) i = typesWithin s t nodes.card i := by
  -- each step leaves one node behind, and no later step comes back to it
  have hself : i ∈ nodes := h i .refl
  generalize hcard : nodes.card = n
  induction n generalizing i nodes with
  | zero =>
      rw [Finset.card_eq_zero.1 hcard] at hself
      cases hself
  | succ n ih =>
      rw [typesWithin, typesWithin]
      cases horigin : origin? t i with
      | none => rfl
      | some j =>
          have hasks : Asks t (.types j) (.types i) := .origin horigin
          have hrest : ∀ k, Relation.ReflTransGen (Asks t) (.types k) (.types j) →
              k ∈ nodes.erase i := by
            intro k hk
            refine Finset.mem_erase.2 ⟨?_, h k (hk.tail hasks)⟩
            rintro rfl
            exact hwf.transGen.irrefl.irrefl _ (Relation.TransGen.tail' hk hasks)
          have hcard' : (nodes.erase i).card = n := by
            rw [Finset.card_erase_of_mem hself, hcard, Nat.add_sub_cancel]
          have hstep := ih hrest (hrest j .refl) hcard'
          simp only [Option.elim_some, hstep]

theorem origin?_of_size_le (h : t.size ≤ i) : origin? t i = none := by
  have hkind : t.kind i = .other := by
    simp [Tree.kind, Tree.node?, Array.getElem?_eq_none h]
  simp [origin?, hkind]

/-- The types of a node are what those of its origin make them. -/
theorem typesOf_eq (s : Store) (hwf : WellFounded (Asks t)) (i : Nat) :
    typesOf s t i = typesGiven s t i ((origin? t i).elim [] (typesOf s t)) := by
  by_cases hi : i < t.size
  · have hnodes : ∀ k, Relation.ReflTransGen (Asks t) (.types k) (.types i) →
        k ∈ Finset.range t.size := by
      intro k hk
      rw [Finset.mem_range]
      rcases hk.cases_head with hsame | ⟨q, hask, -⟩
      · cases hsame
        exact hi
      · exact lt_size_of_asks hask
    have hsteps := typesWithin_succ s hwf hnodes
    rw [Finset.card_range] at hsteps
    exact hsteps.symm
  · obtain ⟨n, hn⟩ := Nat.exists_eq_succ_of_ne_zero (Nat.ne_zero_of_lt t.root_lt)
    have hsize : t.size = n + 1 := hn
    rw [origin?_of_size_le (Nat.not_lt.1 hi), typesOf, hsize, typesWithin,
      origin?_of_size_le (Nat.not_lt.1 hi)]
    rfl

/-- Nothing else is what the types of all origins make it. -/
theorem eq_typesOf (s : Store) (hwf : WellFounded (Asks t)) {types : Nat → Types}
    (h : ∀ i, types i = typesGiven s t i ((origin? t i).elim [] types)) : types = typesOf s t := by
  funext i
  -- both sides follow the same origins, which come to an end
  induction i using (InvImage.wf Question.types hwf).induction with
  | _ i ih =>
      rw [h i, typesOf_eq s hwf i]
      cases horigin : origin? t i with
      | none => rfl
      | some j => simp only [Option.elim_some, ih j (.origin horigin)]

/-! ## Texts -/

theorem spanned_ofSource {s : Source} {root : Concrete.Node} (hspans : root.SpansNest s)
    (hnames : root.NamesFilled) (haddress : s.Addressable root.stop) :
    (Parsed.ofSource s root).tree.Spanned := by
  have hterm := Lowering.within_lowerProgram (hspans.standing hnames haddress)
  rw [Parsed.tree_ofSource]
  exact Tree.spanned_of_within (Syntax.Term.within_toTree hterm)

/-- In a tree whose nodes stand within those above them and whose variables are not empty, no
question about types leads back to itself, and the types of the nodes are the only ones that agree
with those of their origins.  The tree of a text is such a tree if the spans it was read from nest
and no name is empty, as far as lines and columns fit into their words. -/
theorem inference_wellFounded :
    (∀ t : Tree, t.Spanned →
      WellFounded (Asks t) ∧ (∀ q, ¬ Relation.TransGen (Asks t) q q) ∧
      ∀ (s : Store) (types : Nat → Types),
        (∀ i, types i = typesGiven s t i ((origin? t i).elim [] types)) ↔ types = typesOf s t) ∧
    ∀ (s : Source) (root : Concrete.Node), root.SpansNest s → root.NamesFilled →
      s.Addressable root.stop → (Parsed.ofSource s root).tree.Spanned := by
  refine ⟨?_, ?_⟩
  · intro t ht
    have hwf := wellFounded_asks ht
    refine ⟨hwf, fun q => hwf.transGen.irrefl.irrefl q, ?_⟩
    intro s types
    refine ⟨eq_typesOf s hwf, ?_⟩
    rintro rfl
    exact typesOf_eq s hwf
  · intro s root hspans hnames haddress
    exact spanned_ofSource hspans hnames haddress

/-- A variable that is assigned twice, the second time from its own value, and then read. -/
def reassignedText : Source :=
  "x = 1\nx = x.succ\nx\n".toList

/-- The spans of that text. -/
def reassigned : Concrete.Node :=
  let first : Concrete.Node := ⟨1, .assignment, true, 0, 5, none,
    [⟨2, .identifier, true, 0, 1, some .left, []⟩, ⟨3, .integer, true, 4, 5, some .right, []⟩]⟩
  let value : Concrete.Node := ⟨6, .call, true, 10, 16, some .right,
    [⟨7, .identifier, true, 10, 11, some .receiver, []⟩,
      ⟨8, .identifier, true, 12, 16, some .method, []⟩]⟩
  let second : Concrete.Node := ⟨4, .assignment, true, 6, 16, none,
    [⟨5, .identifier, true, 6, 7, some .left, []⟩, value]⟩
  ⟨0, .other, true, 0, 19, none, [first, second, ⟨9, .identifier, true, 17, 18, none, []⟩]⟩

/-- The variable that is read last leads to the call in the second assignment, the call to the
variable in it, and that one to the number in the first assignment. -/
theorem reassigned_inference_wellFounded :
    let t := (Parsed.ofSource reassignedText reassigned).tree
    (origin? t 5 = some 3 ∧ origin? t 3 = some 2 ∧ origin? t 2 = some 0 ∧ origin? t 0 = none) ∧
      WellFounded (Asks t) ∧ ∀ s, typesOf s t 2 = ["Integer"] := by
  intro t
  have hspanned : t.Spanned := inference_wellFounded.2 reassignedText reassigned
    (by decide +kernel) (by decide +kernel) (by decide +kernel)
  obtain ⟨hwf, -, hunique⟩ := inference_wellFounded.1 t hspanned
  have horigins : origin? t 5 = some 3 ∧ origin? t 3 = some 2 ∧ origin? t 2 = some 0 ∧
      origin? t 0 = none := by decide +kernel
  refine ⟨horigins, hwf, ?_⟩
  intro s
  have hkinds : t.kind 2 = .localVar ∧ t.kind 0 = .int := by decide +kernel
  have hfree : ((t.name? 2).bind fun name =>
      (declaringMethod? t 2 name).map fun m => (m, name)) = none := by decide +kernel
  have htypes := (hunique s (typesOf s t)).2 rfl
  rw [htypes 2, horigins.2.2.1, Option.elim_some, htypes 0, horigins.2.2.2]
  simp [typesGiven, hkinds, hfree, literalType]

end Typing
end RubyIndex
