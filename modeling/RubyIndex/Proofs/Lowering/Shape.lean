import RubyIndex.Proofs.Lowering.Regions
import RubyIndex.Proofs.Lowering.Yields
import RubyIndex.Proofs.Syntax.Shown

/-!
# The shape of lowered terms

Every term that lowering makes has a range, a method or block holds its parameters in a list of
their own, and the list holds nothing but parameters.  A construct puts at most three levels of
nodes on top of those below it: the most are a block, its call and a hash of pairs, or a method, its
parameter list and a parameter with a default.  Only destructured parameters come on top of that,
since they are lowered within their list and not as constructs of their own.

* `Layout`, how the nodes with parameters are laid out;
* `Term.Formed`, a term of so many levels of which all this holds at every depth;
* `Concrete.Node.destructuring`, how many destructured parameters there are on a way down;
* `yields_lowerConstruct`, the rule for each construct adds three levels at most;
* `formed_lowerProgram`, the term of a whole text, and `exists_formed_shows`, the nodes of its tree.
-/

namespace RubyIndex

namespace Syntax

/-! ## Layout -/

/-- Kinds of what stands in a parameter list. -/
def Kind.isListed (kind : Kind) : Bool :=
  kind.isParameter || kind == .forwardedParameters || kind == .other

/-- The children of methods and blocks, and of parameter lists. -/
def Layout (kind : Kind) (children : List (Child Term)) : Prop :=
  match kind with
  | .method => ∃ name list body,
      children = [.leaf (.symbol name), .node list, body] ∧ list.kind = .parameterList
  | .singletonMethod => ∃ object name list body,
      children = [object, .leaf (.symbol name), .node list, body] ∧ list.kind = .parameterList
  | .block => ∃ call list body, children = [call, .node list, body] ∧ list.kind = .parameterList
  | .parameterList => ∃ terms : List Term,
      children = terms.map .node ∧ ∀ t ∈ terms, t.kind.isListed = true
  | _ => True

/-- A term as lowering makes it, on so many levels: only parameter lists and the top level are
without a range, and all nodes are laid out as their kind says. -/
inductive Term.Formed : Nat → Term → Prop
  | intro {levels : Nat} {t : Term} :
      (t.range = none → t.kind = .parameterList ∨ t.kind = .topScope) →
      Layout t.kind t.children →
      (∀ c, Child.node c ∈ t.children → Term.Formed levels c) → Term.Formed (levels + 1) t

/-- Terms of so many levels. -/
def FormedAll (levels : Nat) (terms : List Term) : Prop :=
  ∀ t ∈ terms, t.Formed levels

section Terms

variable {levels levels' : Nat} {t : Term} {terms terms' : List Term}

@[simp] theorem formedAll_nil : FormedAll levels [] := by
  simp [FormedAll]

@[simp] theorem formedAll_cons :
    FormedAll levels (t :: terms) ↔ t.Formed levels ∧ FormedAll levels terms := by
  simp [FormedAll]

@[simp] theorem formedAll_append :
    FormedAll levels (terms ++ terms') ↔ FormedAll levels terms ∧ FormedAll levels terms' :=
  List.forall_mem_append

theorem Term.Formed.mono (h : t.Formed levels) (hle : levels ≤ levels') : t.Formed levels' := by
  induction h generalizing levels' with
  | intro hrange hlayout _ ih =>
      cases levels' with
      | zero => exact absurd hle (Nat.not_succ_le_zero _)
      | succ levels' =>
          exact .intro hrange hlayout fun c hc => ih c hc (Nat.le_of_succ_le_succ hle)

theorem FormedAll.mono (h : FormedAll levels terms) (hle : levels ≤ levels') :
    FormedAll levels' terms :=
  fun t ht => (h t ht).mono hle

/-- A term with a range over others that have one level less. -/
theorem Term.formed_of_range {kind : Kind} {children : List (Child Term)} {range : Range}
    {row : Option Nat} (hlayout : Layout kind children)
    (h : FormedAll levels (Child.nodes children)) :
    Term.Formed (levels + 1) ⟨kind, children, some range, row⟩ := by
  refine .intro ?_ hlayout fun c hc => h c (Child.mem_nodes.2 hc)
  intro hnone
  cases hnone

theorem Term.Formed.height_le (h : t.Formed levels) : t.height ≤ levels := by
  induction h with
  | @intro levels t _ _ _ ih =>
      rw [t.height_eq]
      exact Nat.succ_le_succ (heightOf_le_iff.2 ih)

end Terms
end Syntax

/-! ## Destructured parameters -/

namespace Concrete.Node

mutual

/-- The most destructured parameters there are on a way down from a node. -/
def destructuring : Node → Nat
  | ⟨_, kind, _, _, _, _, children⟩ =>
      destructuringOf children + if kind = .destructuredParameter then 1 else 0

def destructuringOf : List Node → Nat
  | [] => 0
  | n :: rest => max (destructuring n) (destructuringOf rest)

end

variable {n c : Node} {nodes : List Node}

theorem destructuring_le_destructuringOf (hc : c ∈ nodes) :
    c.destructuring ≤ destructuringOf nodes := by
  induction nodes with
  | nil => cases hc
  | cons d nodes ih =>
      rw [destructuringOf]
      rcases List.mem_cons.1 hc with rfl | hc
      · exact Nat.le_max_left _ _
      · exact Nat.le_trans (ih hc) (Nat.le_max_right _ _)

theorem destructuring_child (hc : c ∈ n.children) : c.destructuring ≤ n.destructuring := by
  cases n
  rw [destructuring]
  exact Nat.le_trans (destructuring_le_destructuringOf hc) (Nat.le_add_right _ _)

theorem destructuring_field {role : Field} (hc : n.field? role = some c) :
    c.destructuring ≤ n.destructuring :=
  destructuring_child (mem_children_of_field? hc)

theorem destructuring_named (hc : c ∈ n.namedChildren) : c.destructuring ≤ n.destructuring :=
  destructuring_child (mem_children_of_namedChildren hc)

theorem destructuring_bodyNodes {header : List (Option Node)} (hc : c ∈ n.bodyNodes header) :
    c.destructuring ≤ n.destructuring := by
  rcases mem_bodyNodes hc with hchild | ⟨body, hbody, hchild⟩
  · exact destructuring_child hchild
  · exact Nat.le_trans (destructuring_child hchild) (destructuring_child hbody)

end Concrete.Node

namespace Lowering

open Concrete (Source Field)
open Syntax (Kind Child Leaf Term Layout FormedAll)
open Syntax.Term (formed_of_range)

/-- A lowering that results in terms of so many levels, and of one more for each destructured
parameter on a way down. -/
def LowersFormed (lower : Lower Lowering Term) (levels : Nat) : Prop :=
  ∀ n, Yields (lower n) fun term => FormedAll (levels + n.destructuring) term.toList

variable {s : Source} {lower : Lower Lowering Term} {levels most : Nat} {n : Concrete.Node}

theorem Yields.deeper {step : Lowering Term} {levels : Nat} (more : Nat)
    (h : Yields step (Term.Formed levels)) : Yields step (Term.Formed (levels + more)) :=
  h.mono fun _ hterm => hterm.mono (Nat.le_add_right _ _)

/-! ## Nodes below -/

theorem LowersFormed.below (hlower : LowersFormed lower levels) (hn : n.destructuring ≤ most) :
    Yields (lower n) fun term => FormedAll (levels + most) term.toList :=
  (hlower n).mono fun _ hterm => hterm.mono (Nat.add_le_add_left hn levels)

theorem yields_lowerAll (hlower : LowersFormed lower levels) {nodes : List Concrete.Node}
    (hnodes : ∀ c ∈ nodes, c.destructuring ≤ most) :
    Yields (lowerAll lower nodes) (FormedAll (levels + most)) := by
  induction nodes with
  | nil => exact .pure (by simp)
  | cons n rest ih =>
      obtain ⟨hn, hrest⟩ := List.forall_mem_cons.1 hnodes
      refine (hlower.below hn).bind ?_
      intro term hterm
      refine (ih hrest).bind ?_
      intro terms hterms
      exact .pure (by simp [hterm, hterms])

theorem yields_lowerOption (hlower : LowersFormed lower levels) {node : Option Concrete.Node}
    (hnode : ∀ c, node = some c → c.destructuring ≤ most) :
    Yields (lowerOption lower node) fun term => FormedAll (levels + most) term.toList := by
  cases node with
  | none => exact .pure (by simp)
  | some n => exact hlower.below (hnode n rfl)

theorem yields_lowerField (hlower : LowersFormed lower levels) (hn : n.destructuring ≤ most)
    (role : Field) :
    Yields (lowerField lower n role) fun term => FormedAll (levels + most) term.toList :=
  yields_lowerOption hlower fun _ hc =>
    Nat.le_trans (Concrete.Node.destructuring_field hc) hn

theorem yields_lowerGeneric (hlower : LowersFormed lower levels) {kind : Kind}
    (n : Concrete.Node) (hkind : ∀ children, Layout kind children) :
    Yields (lowerGeneric s lower kind n) (Term.Formed (levels + n.destructuring + 1)) := by
  refine (yields_lowerAll hlower fun _ => Concrete.Node.destructuring_named).bind ?_
  intro terms hterms
  exact .pure (formed_of_range (hkind _) (by simpa using hterms))

theorem formedAll_joined {owner : Concrete.Node} {terms : List Term}
    (h : FormedAll levels terms) : FormedAll (levels + 1) (joined s owner terms).toList := by
  match terms with
  | [] => simp [joined]
  | [term] => simpa [joined] using h.mono (Nat.le_succ levels)
  | first :: second :: rest =>
      have hchildren : FormedAll levels (Child.nodes ((first :: second :: rest).map .node)) := by
        rwa [Syntax.Child.nodes_map]
      exact Syntax.formedAll_cons.2 ⟨formed_of_range trivial hchildren, Syntax.formedAll_nil⟩

theorem yields_lowerStatements (hlower : LowersFormed lower levels) {nodes : List Concrete.Node}
    (hnodes : ∀ c ∈ nodes, c.destructuring ≤ most) (owner : Concrete.Node) :
    Yields (lowerStatements s lower nodes owner) fun term =>
      FormedAll (levels + most + 1) term.toList := by
  rw [lowerStatements_eq]
  refine (yields_lowerAll hlower hnodes).bind ?_
  intro terms hterms
  exact .pure (formedAll_joined hterms)

/-! ## Parameters -/

/-- Terms of so many levels that may stand in a parameter list. -/
def ListedAll (levels : Nat) (terms : List Term) : Prop :=
  FormedAll levels terms ∧ ∀ t ∈ terms, t.kind.isListed = true

theorem ListedAll.append {terms terms' : List Term} (h : ListedAll levels terms)
    (h' : ListedAll levels terms') : ListedAll levels (terms ++ terms') :=
  ⟨Syntax.formedAll_append.2 ⟨h.1, h'.1⟩, List.forall_mem_append.2 ⟨h.2, h'.2⟩⟩

theorem ListedAll.mono {levels' : Nat} {terms : List Term} (h : ListedAll levels terms)
    (hle : levels ≤ levels') : ListedAll levels' terms :=
  ⟨h.1.mono hle, h.2⟩

theorem listedAll_some {t : Term} (h : t.Formed levels) (hkind : t.kind.isListed = true) :
    ListedAll levels (some t).toList :=
  ⟨by simpa using h, by simpa using hkind⟩

theorem yields_lowerDefaulted (hlower : LowersFormed lower levels) (n : Concrete.Node) :
    Yields (lowerDefaulted s lower n) fun term =>
      ListedAll (levels + n.destructuring + 1) (some term).toList := by
  refine .skip ?_
  intro _
  refine (yields_lowerField hlower (Nat.le_refl _) .value).bind ?_
  intro default hdefault
  refine .pure ?_
  split
  · exact listedAll_some (formed_of_range trivial (by simpa using hdefault)) rfl
  · split
    · exact listedAll_some (formed_of_range trivial (by simpa using hdefault)) rfl
    · exact listedAll_some (formed_of_range trivial (by simpa using hdefault)) rfl

theorem yields_lowerCollecting {kind : Kind} (n : Concrete.Node)
    (hkind : kind.isListed = true) (hlayout : ∀ children, Layout kind children) :
    Yields (lowerCollecting s kind n) fun term => ListedAll (levels + 1) (some term).toList := by
  unfold lowerCollecting
  split
  · refine .skip ?_
    intro _
    exact .pure (listedAll_some (formed_of_range (hlayout _) (by simp)) hkind)
  · exact .pure (listedAll_some (formed_of_range (hlayout _) (by simp)) hkind)

/-- A rule that always makes a term. -/
theorem yields_some {step : Lowering Term}
    (h : Yields step fun term => ListedAll levels (some term).toList) :
    Yields (do let term ← step; pure (some term)) fun term => ListedAll levels term.toList :=
  h.bind fun _ hterm => .pure hterm

-- one level for a parameter and one for each destructured one around it, which is in the measure

mutual

theorem yields_lowerParameter (hlower : LowersFormed lower levels) :
    ∀ n, Yields (lowerParameter s lower n) fun term =>
      ListedAll (levels + n.destructuring + 1) term.toList
  | ⟨id, kind, named, start, stop, role, children⟩ => by
      unfold lowerParameter
      split
      · refine .skip ?_
        intro _
        exact .pure (listedAll_some (formed_of_range trivial (by simp)) rfl)
      · exact yields_some (yields_lowerDefaulted hlower _)
      · exact yields_some (yields_lowerDefaulted hlower _)
      · exact yields_some (yields_lowerCollecting _ rfl (fun _ => trivial))
      · exact yields_some (yields_lowerCollecting _ rfl (fun _ => trivial))
      · exact yields_some (yields_lowerCollecting _ rfl (fun _ => trivial))
      · exact .pure (listedAll_some (formed_of_range trivial (by simp)) rfl)
      · refine (yields_lowerParameterList hlower children).bind ?_
        intro parts hparts
        refine .pure (listedAll_some ?_ rfl)
        rw [Concrete.Node.destructuring, if_pos rfl, ← Nat.add_assoc]
        exact formed_of_range trivial (by simpa using hparts.1)
      · exact .pure ⟨by simp, by simp⟩

theorem yields_lowerParameterList (hlower : LowersFormed lower levels) :
    ∀ nodes, Yields (lowerParameterList s lower nodes)
      (ListedAll (levels + Concrete.Node.destructuringOf nodes + 1))
  | [] => by
      unfold lowerParameterList
      exact .pure ⟨by simp, by simp⟩
  | n :: rest => by
      have hfirst := Nat.le_max_left n.destructuring (Concrete.Node.destructuringOf rest)
      have hlater := Nat.le_max_right n.destructuring (Concrete.Node.destructuringOf rest)
      unfold lowerParameterList Concrete.Node.destructuringOf
      split
      · refine (yields_lowerParameter hlower n).bind ?_
        intro term hterm
        refine (yields_lowerParameterList hlower rest).bind ?_
        intro terms hterms
        exact .pure ((hterm.mono (by omega)).append (hterms.mono (by omega)))
      · exact (yields_lowerParameterList hlower rest).mono fun _ hterms => hterms.mono (by omega)

end

/-- The one rule that may make a term without a range. -/
theorem yields_lowerParameters (hlower : LowersFormed lower levels)
    {node : Option Concrete.Node} (hnode : ∀ c, node = some c → c.destructuring ≤ most) :
    Yields (lowerParameters s lower node) fun term =>
      term.Formed (levels + most + 2) ∧ term.kind = .parameterList := by
  cases node with
  | none =>
      refine .pure ⟨.intro (fun _ => Or.inl rfl) ⟨[], rfl, by simp⟩ ?_, rfl⟩
      intro c hc
      cases hc
  | some n =>
      have hn := hnode n rfl
      have hchildren : Concrete.Node.destructuringOf n.children ≤ n.destructuring := by
        cases n
        rw [Concrete.Node.destructuring]
        exact Nat.le_add_right _ _
      refine (yields_lowerParameterList hlower n.children).bind ?_
      intro terms hterms
      refine .pure ⟨formed_of_range ⟨terms, rfl, hterms.2⟩ ?_, rfl⟩
      rw [Syntax.Child.nodes_map]
      exact hterms.1.mono (by omega)

/-! ## Declarations -/

theorem yields_lowerBody (hlower : LowersFormed lower levels) (n : Concrete.Node)
    (header : List (Option Concrete.Node)) :
    Yields (lowerBody s lower n header) fun term =>
      FormedAll (levels + n.destructuring + 1) term.toList :=
  (yields_lowerStatements hlower (fun _ => Concrete.Node.destructuring_bodyNodes) n).within false

theorem destructuring_superclassNode {c : Concrete.Node} (h : superclassNode? n = some c) :
    c.destructuring ≤ n.destructuring := by
  obtain ⟨d, hd, hc⟩ := Option.bind_eq_some_iff.1 h
  have houter := Concrete.Node.destructuring_field hd
  split at hc
  · exact Nat.le_trans (Concrete.Node.destructuring_named (List.mem_of_head? hc)) houter
  · cases hc
    exact houter

theorem yields_lowerClass (hlower : LowersFormed lower levels) (n : Concrete.Node) :
    Yields (lowerClass s lower n) (Term.Formed (levels + n.destructuring + 2)) := by
  have hup := Nat.le_succ (levels + n.destructuring)
  refine (yields_lowerField hlower (Nat.le_refl _) .name).bind ?_
  intro name hname
  refine (yields_lowerOption hlower fun _ => destructuring_superclassNode).bind ?_
  intro superclass hsuperclass
  refine (yields_lowerBody hlower n _).bind ?_
  intro body hbody
  exact .pure (formed_of_range trivial (by simp [hname.mono hup, hsuperclass.mono hup, hbody]))

theorem yields_lowerModule (hlower : LowersFormed lower levels) (n : Concrete.Node) :
    Yields (lowerModule s lower n) (Term.Formed (levels + n.destructuring + 2)) := by
  have hup := Nat.le_succ (levels + n.destructuring)
  refine (yields_lowerField hlower (Nat.le_refl _) .name).bind ?_
  intro name hname
  refine (yields_lowerBody hlower n _).bind ?_
  intro body hbody
  exact .pure (formed_of_range trivial (by simp [hname.mono hup, hbody]))

theorem yields_lowerSingletonClass (hlower : LowersFormed lower levels) (n : Concrete.Node) :
    Yields (lowerSingletonClass s lower n) (Term.Formed (levels + n.destructuring + 2)) := by
  have hup := Nat.le_succ (levels + n.destructuring)
  refine (yields_lowerField hlower (Nat.le_refl _) .value).bind ?_
  intro object hobject
  refine (yields_lowerBody hlower n _).bind ?_
  intro body hbody
  exact .pure (formed_of_range trivial (by simp [hobject.mono hup, hbody]))

theorem yields_lowerCallable (hlower : LowersFormed lower levels) (seesOuter : Bool)
    (hn : n.destructuring ≤ most) (header : List (Option Concrete.Node)) :
    Yields (lowerCallable s lower seesOuter n header) fun parts =>
      (parts.1.Formed (levels + most + 2) ∧ parts.1.kind = .parameterList) ∧
        FormedAll (levels + most + 2) parts.2.toList := by
  refine Yields.within ?_ seesOuter
  refine (yields_lowerParameters hlower fun _ hc =>
    Nat.le_trans (Concrete.Node.destructuring_field hc) hn).bind ?_
  intro parameters hparameters
  refine (yields_lowerStatements hlower (fun _ hc =>
    Nat.le_trans (Concrete.Node.destructuring_bodyNodes hc) hn) n).bind ?_
  intro body hbody
  exact .pure ⟨hparameters, hbody.mono (Nat.le_succ _)⟩

theorem yields_lowerMethod (hlower : LowersFormed lower levels) (n : Concrete.Node) :
    Yields (lowerMethod s lower n) (Term.Formed (levels + n.destructuring + 3)) := by
  refine (yields_lowerCallable hlower false (Nat.le_refl _) _).bind ?_
  rintro ⟨parameters, body⟩ ⟨⟨hparameters, hkind⟩, hbody⟩
  exact .pure (formed_of_range ⟨_, _, _, rfl, hkind⟩ (by simp [hparameters, hbody]))

theorem yields_lowerSingletonMethod (hlower : LowersFormed lower levels) (n : Concrete.Node) :
    Yields (lowerSingletonMethod s lower n) (Term.Formed (levels + n.destructuring + 3)) := by
  have hup := Nat.le_add_right (levels + n.destructuring) 2
  refine (yields_lowerField hlower (Nat.le_refl _) .object).bind ?_
  intro object hobject
  refine (yields_lowerCallable hlower false (Nat.le_refl _) _).bind ?_
  rintro ⟨parameters, body⟩ ⟨⟨hparameters, hkind⟩, hbody⟩
  exact .pure (formed_of_range ⟨_, _, _, _, rfl, hkind⟩
    (by simp [hobject.mono hup, hparameters, hbody]))

/-! ## Calls -/

theorem yields_keywordHash (hlower : LowersFormed lower levels) {pairs : List Concrete.Node}
    (hpairs : ∀ c ∈ pairs, c.destructuring ≤ most) :
    Yields (keywordHash s lower pairs) fun term => FormedAll (levels + most + 1) term.toList := by
  unfold keywordHash
  split
  · refine (yields_lowerAll hlower hpairs).bind ?_
    intro terms hterms
    refine .pure (Syntax.formedAll_cons.2 ⟨formed_of_range trivial ?_, Syntax.formedAll_nil⟩)
    simpa using hterms
  · exact .pure (by simp)

theorem yields_lowerArgumentsAfter (hlower : LowersFormed lower levels)
    {nodes : List Concrete.Node} (hnodes : ∀ c ∈ nodes, c.destructuring ≤ most) :
    ∀ pairs : List Concrete.Node, (∀ c ∈ pairs, c.destructuring ≤ most) →
      Yields (lowerArgumentsAfter s lower pairs nodes) (FormedAll (levels + most + 1)) := by
  induction nodes with
  | nil =>
      intro pairs hpairs
      refine (yields_keywordHash hlower hpairs).bind ?_
      intro hash hhash
      exact .pure hhash
  | cons n rest ih =>
      intro pairs hpairs
      obtain ⟨hn, hrest⟩ := List.forall_mem_cons.1 hnodes
      unfold lowerArgumentsAfter
      split
      · refine ih hrest (pairs ++ [n]) (List.forall_mem_append.2 ⟨hpairs, ?_⟩)
        simpa using hn
      · refine (yields_keywordHash hlower hpairs).bind ?_
        intro hash hhash
        refine (hlower.below hn).bind ?_
        intro term hterm
        refine (ih hrest [] (by simp)).bind ?_
        intro terms hterms
        exact .pure (by simp [hhash, hterm.mono (Nat.le_succ _), hterms])

theorem yields_lowerArguments (hlower : LowersFormed lower levels) {list : Concrete.Node}
    (hlist : list.destructuring ≤ most) :
    Yields (lowerArguments s lower list) (FormedAll (levels + most + 1)) :=
  yields_lowerArgumentsAfter hlower
    (fun _ hc => Nat.le_trans (Concrete.Node.destructuring_named hc) hlist) [] (by simp)

theorem yields_lowerBlock (hlower : LowersFormed lower levels) {block : Concrete.Node}
    (hblock : block.destructuring ≤ most) (outer : Concrete.Node) {call : Option Term}
    (hcall : FormedAll (levels + most + 2) call.toList) :
    Yields (lowerBlock s lower block call outer) (Term.Formed (levels + most + 3)) := by
  refine (yields_lowerCallable hlower true hblock _).bind ?_
  rintro ⟨parameters, body⟩ ⟨⟨hparameters, hkind⟩, hbody⟩
  exact .pure (formed_of_range ⟨_, _, _, rfl, hkind⟩ (by simp [hcall, hparameters, hbody]))

/-- A call is one level above its parts, and one below its block. -/
theorem yields_call_or_block (hlower : LowersFormed lower levels) (n : Concrete.Node) {kind : Kind}
    (hkind : ∀ children, Layout kind children) {children : List (Child Term)}
    (h : FormedAll (levels + n.destructuring + 1) (Child.nodes children)) :
    Yields
      (match n.field? .block with
        | none => pure (documentable s kind children n)
        | some block =>
            lowerBlock s lower block
              (some ⟨kind, children, some (callRange s n), some (s.startRow n)⟩) n)
      (Term.Formed (levels + n.destructuring + 3)) := by
  split
  · exact .pure ((formed_of_range (hkind _) h).mono (Nat.le_succ _))
  · rename_i block hblock
    refine yields_lowerBlock hlower (Concrete.Node.destructuring_field hblock) n ?_
    simpa using formed_of_range (hkind _) h

theorem yields_lowerCall (hlower : LowersFormed lower levels) (n : Concrete.Node) :
    Yields (lowerCall s lower n) (Term.Formed (levels + n.destructuring + 3)) := by
  have hup := Nat.le_succ (levels + n.destructuring)
  refine (yields_lowerField hlower (Nat.le_refl _) .receiver).bind ?_
  intro receiver hreceiver
  dsimp only
  have hkind : ∀ children, Layout (if n.hasChild .safeNavigation then .safeSend else .send)
      children := by
    intro children
    split <;> trivial
  split
  · rename_i list hlist
    refine (yields_lowerArguments hlower (Concrete.Node.destructuring_field hlist)).bind ?_
    intro arguments harguments
    exact yields_call_or_block hlower n hkind (by simp [hreceiver.mono hup, harguments])
  · exact yields_call_or_block hlower n hkind (by simp [hreceiver.mono hup])

theorem yields_lowerIdentifier (n : Concrete.Node) :
    Yields (lowerIdentifier s n) (Term.Formed (levels + 1)) := by
  refine .skip ?_
  intro scopes
  split
  · exact .pure (formed_of_range trivial (by simp))
  · exact .pure (formed_of_range trivial (by simp))

theorem yields_lowerBinary (hlower : LowersFormed lower levels) (n : Concrete.Node) :
    Yields (lowerBinary s lower n) (Term.Formed (levels + n.destructuring + 1)) := by
  unfold lowerBinary
  split
  · rename_i left operator right hleft _ hright
    refine (hlower.below (Concrete.Node.destructuring_field hleft)).bind ?_
    intro a ha
    refine (hlower.below (Concrete.Node.destructuring_field hright)).bind ?_
    intro b hb
    dsimp only
    split
    · exact .pure (formed_of_range trivial (by simp [ha, hb]))
    · exact .pure (formed_of_range trivial (by simp [ha, hb]))
  · exact yields_lowerGeneric hlower n (fun _ => trivial)

theorem yields_lowerUnary (hlower : LowersFormed lower levels) (n : Concrete.Node) :
    Yields (lowerUnary s lower n) (Term.Formed (levels + n.destructuring + 1)) := by
  unfold lowerUnary
  split
  · rename_i name operand _ hoperand
    refine (hlower.below (Concrete.Node.destructuring_field hoperand)).bind ?_
    intro term hterm
    exact .pure (formed_of_range trivial (by simp [hterm]))
  · exact yields_lowerGeneric hlower n (fun _ => trivial)

theorem yields_lowerElement (hlower : LowersFormed lower levels) (hn : n.destructuring ≤ most) :
    Yields (lowerElement lower n) fun parts =>
      FormedAll (levels + most) (parts.1.toList ++ parts.2) := by
  refine (yields_lowerField hlower hn .object).bind ?_
  intro object hobject
  refine (yields_lowerAll hlower fun _ hc =>
    Nat.le_trans (Concrete.Node.destructuring_named (List.mem_filter.1 hc).1) hn).bind ?_
  intro indices hindices
  exact .pure (by simp [hobject, hindices])

theorem yields_lowerElementReference (hlower : LowersFormed lower levels) (n : Concrete.Node) :
    Yields (lowerElementReference s lower n) (Term.Formed (levels + n.destructuring + 1)) := by
  refine (yields_lowerElement hlower (Nat.le_refl _)).bind ?_
  rintro ⟨object, indices⟩ hparts
  exact .pure (formed_of_range trivial (by simpa using hparts))

/-! ## Constants and assignments -/

theorem yields_lowerScope (hlower : LowersFormed lower levels) (hn : n.destructuring ≤ most) :
    Yields (lowerScope lower n) fun term => FormedAll (levels + most + 1) term.toList := by
  unfold lowerScope
  split
  · rename_i scope hscope
    exact (hlower.below (Nat.le_trans (Concrete.Node.destructuring_field hscope) hn)).mono
      fun _ hterm => hterm.mono (Nat.le_succ _)
  · -- the top level, which has no range
    have htop : Term.Formed (levels + most + 1) ⟨.topScope, [], none, none⟩ := by
      refine .intro (fun _ => Or.inr rfl) trivial ?_
      intro c hc
      cases hc
    exact .pure (by simpa using htop)

theorem yields_lowerScopeResolution (hlower : LowersFormed lower levels) (n : Concrete.Node) :
    Yields (lowerScopeResolution s lower n) (Term.Formed (levels + n.destructuring + 2)) := by
  refine (yields_lowerScope hlower (Nat.le_refl _)).bind ?_
  intro scope hscope
  refine .pure (formed_of_range ?_ (by simpa using hscope))
  split <;> trivial

theorem yields_lowerValue (hlower : LowersFormed lower levels) (n : Concrete.Node) :
    Yields (lowerValue s lower (n.field? .right)) fun term =>
      FormedAll (levels + n.destructuring + 1) term.toList := by
  unfold lowerValue
  split
  · exact .pure (by simp)
  · rename_i value hvalue
    have hbelow := Concrete.Node.destructuring_field hvalue
    split
    · have harray : Yields (lowerGeneric s lower .array value)
          (Term.Formed (levels + value.destructuring + 1)) :=
        yields_lowerGeneric hlower value (fun _ => trivial)
      refine harray.bind ?_
      intro term hterm
      exact .pure (by simpa using hterm.mono (by omega))
    · exact (hlower.below hbelow).mono fun _ hterm => hterm.mono (Nat.le_succ _)

theorem yields_lowerLocalAssignment (hlower : LowersFormed lower levels) (left n : Concrete.Node) :
    Yields (lowerLocalAssignment s lower left n) (Term.Formed (levels + n.destructuring + 2)) := by
  refine .skip ?_
  intro _
  refine (yields_lowerValue hlower n).bind ?_
  intro value hvalue
  exact .pure (formed_of_range trivial (by simpa using hvalue))

theorem yields_lowerVariableAssignment (hlower : LowersFormed lower levels) {kind : Kind}
    (left n : Concrete.Node) (hkind : ∀ children, Layout kind children) :
    Yields (lowerVariableAssignment s lower kind left n)
      (Term.Formed (levels + n.destructuring + 2)) := by
  refine (yields_lowerValue hlower n).bind ?_
  intro value hvalue
  exact .pure (formed_of_range (hkind _) (by simpa using hvalue))

theorem yields_lowerAssignmentTo (hlower : LowersFormed lower levels) {left : Concrete.Node}
    (hleft : n.field? .left = some left) :
    Yields (lowerAssignmentTo s lower left n) (Term.Formed (levels + n.destructuring + 2)) := by
  have hup := Nat.le_succ (levels + n.destructuring)
  have hbelow := Concrete.Node.destructuring_field hleft
  -- whatever is assigned to, the value is lowered in the same way
  have hright := yields_lowerValue (s := s) hlower n
  unfold lowerAssignmentTo
  split
  · exact yields_lowerLocalAssignment hlower left n
  · exact yields_lowerVariableAssignment hlower left n (fun _ => trivial)
  · exact yields_lowerVariableAssignment hlower left n (fun _ => trivial)
  · exact yields_lowerVariableAssignment hlower left n (fun _ => trivial)
  · refine hright.bind ?_
    intro value hvalue
    exact .pure (formed_of_range trivial (by simpa using hvalue))
  · refine (yields_lowerScope hlower hbelow).bind ?_
    intro scope hscope
    refine hright.bind ?_
    intro value hvalue
    exact .pure (formed_of_range trivial (by simp [hscope, hvalue]))
  · refine (yields_lowerField hlower hbelow .receiver).bind ?_
    intro receiver hreceiver
    refine hright.bind ?_
    intro value hvalue
    exact .pure (formed_of_range trivial (by simp [hreceiver.mono hup, hvalue]))
  · refine (yields_lowerElement hlower hbelow).bind ?_
    rintro ⟨object, indices⟩ hparts
    refine hright.bind ?_
    intro value hvalue
    have hparts' := Syntax.formedAll_append.1 (hparts.mono hup)
    exact .pure (formed_of_range trivial (by simp [hparts', hvalue]))
  · refine .skip ?_
    intro _
    refine (hlower.below hbelow).bind ?_
    intro target htarget
    refine hright.bind ?_
    intro value hvalue
    exact .pure (formed_of_range trivial (by simp [htarget.mono hup, hvalue]))

theorem yields_lowerAssignment (hlower : LowersFormed lower levels) (n : Concrete.Node) :
    Yields (lowerAssignment s lower n) (Term.Formed (levels + n.destructuring + 2)) := by
  unfold lowerAssignment
  split
  · rename_i left hleft
    exact yields_lowerAssignmentTo hlower hleft
  · exact .deeper 1 (yields_lowerGeneric hlower n (fun _ => trivial))

theorem yields_lowerOperatorAssignment (hlower : LowersFormed lower levels) (n : Concrete.Node) :
    Yields (lowerOperatorAssignment s lower n)
      (Term.Formed (levels + n.destructuring + 2)) := by
  unfold lowerOperatorAssignment
  split
  · split
    · exact yields_lowerLocalAssignment hlower _ n
    · refine .skip ?_
      intro _
      exact .deeper 1 (yields_lowerGeneric hlower n (fun _ => trivial))
  · exact .deeper 1 (yields_lowerGeneric hlower n (fun _ => trivial))

/-! ## Texts and other constructs -/

theorem lowersFormed_lowerPart (hlower : LowersFormed lower levels) :
    LowersFormed (lowerPart s lower) (levels + 1) := by
  intro n
  unfold lowerPart
  split
  · exact (hlower n).mono fun _ hterm => hterm.mono (by omega)
  · have hpart : Term.Formed (levels + n.destructuring + 1)
        (written s .str [.leaf (.str (s.text n))] n) := formed_of_range trivial (by simp)
    exact .pure (by simpa [written] using hpart.mono (by omega))

theorem yields_lowerText (hlower : LowersFormed lower levels) {plain dynamic : Kind}
    (n : Concrete.Node) (hplain : ∀ children, Layout plain children)
    (hdynamic : ∀ children, Layout dynamic children) :
    Yields (lowerText s lower plain dynamic n) (Term.Formed (levels + n.destructuring + 2)) := by
  unfold lowerText
  split
  · refine (yields_lowerAll (lowersFormed_lowerPart hlower)
      fun _ => Concrete.Node.destructuring_named).bind ?_
    intro parts hparts
    refine .pure (formed_of_range (hdynamic _) ?_)
    rw [Syntax.Child.nodes_map]
    exact hparts.mono (by omega)
  · exact .pure (formed_of_range (hplain _) (by simp))

theorem yields_lowerPair (hlower : LowersFormed lower levels) (n : Concrete.Node) :
    Yields (lowerPair s lower n) (Term.Formed (levels + n.destructuring + 1)) := by
  refine (yields_lowerField hlower (Nat.le_refl _) .key).bind ?_
  intro key hkey
  refine (yields_lowerField hlower (Nat.le_refl _) .value).bind ?_
  intro value hvalue
  exact .pure (formed_of_range trivial (by simp [hkey, hvalue]))

theorem yields_lowerRange (hlower : LowersFormed lower levels) (n : Concrete.Node) :
    Yields (lowerRange s lower n) (Term.Formed (levels + n.destructuring + 1)) := by
  refine (yields_lowerField hlower (Nat.le_refl _) .first).bind ?_
  intro first hfirst
  refine (yields_lowerField hlower (Nat.le_refl _) .last).bind ?_
  intro last hlast
  refine .pure (formed_of_range ?_ (by simp [hfirst, hlast]))
  split <;> trivial

theorem yields_lowerReturned (hlower : LowersFormed lower levels) {nodes : List Concrete.Node}
    (hnodes : ∀ c ∈ nodes, c.destructuring ≤ most) :
    Yields (lowerReturned s lower nodes) (FormedAll (levels + most + 1)) := by
  induction nodes with
  | nil => exact .pure (by simp)
  | cons n rest ih =>
      obtain ⟨hn, hlater⟩ := List.forall_mem_cons.1 hnodes
      -- what both sorts of arguments end with
      have hrest : ∀ values, FormedAll (levels + most + 1) values → Yields
          (do let terms ← lowerReturned s lower rest; pure (values ++ terms))
          (FormedAll (levels + most + 1)) := by
        intro values hvalues
        refine (ih hlater).bind ?_
        intro terms hterms
        exact .pure (by simp [hvalues, hterms])
      unfold lowerReturned
      dsimp only
      split
      · exact (yields_lowerArguments hlower hn).bind hrest
      · refine (hlower.below hn).bind ?_
        intro term hterm
        exact hrest term.toList (hterm.mono (Nat.le_succ _))

theorem yields_lowerReturn (hlower : LowersFormed lower levels) (n : Concrete.Node) :
    Yields (lowerReturn s lower n) (Term.Formed (levels + n.destructuring + 2)) := by
  refine (yields_lowerReturned hlower fun _ => Concrete.Node.destructuring_named).bind ?_
  intro terms hterms
  exact .pure (formed_of_range trivial (by simpa using hterms))

theorem yields_lowerDeclaring (hlower : LowersFormed lower levels) (target : Option Concrete.Node)
    (n : Concrete.Node) :
    Yields (lowerDeclaring s lower target n) (Term.Formed (levels + n.destructuring + 1)) := by
  refine .skip ?_
  intro _
  exact yields_lowerGeneric hlower n (fun _ => trivial)

/-! ## Programs -/

theorem yields_lowerConstruct (hlower : LowersFormed lower levels) (n : Concrete.Node) :
    Yields (lowerConstruct s lower n) (Term.Formed (levels + n.destructuring + 3)) := by
  unfold lowerConstruct
  cases n.kind with
  | classNode => exact .deeper 1 (yields_lowerClass hlower n)
  | moduleNode => exact .deeper 1 (yields_lowerModule hlower n)
  | singletonClass => exact .deeper 1 (yields_lowerSingletonClass hlower n)
  | method => exact yields_lowerMethod hlower n
  | singletonMethod => exact yields_lowerSingletonMethod hlower n
  | call => exact yields_lowerCall hlower n
  | block => exact yields_lowerBlock hlower (Nat.le_refl _) n (by simp)
  | doBlock => exact yields_lowerBlock hlower (Nat.le_refl _) n (by simp)
  | lambda =>
      refine Yields.within ?_ true
      exact .deeper 2 (yields_lowerGeneric hlower n (fun _ => trivial))
  | identifier => exact yields_lowerIdentifier n
  | scopeResolution => exact .deeper 1 (yields_lowerScopeResolution hlower n)
  | assignment => exact .deeper 1 (yields_lowerAssignment hlower n)
  | operatorAssignment => exact .deeper 1 (yields_lowerOperatorAssignment hlower n)
  | string | bareString | subshell | delimitedSymbol | bareSymbol =>
      exact .deeper 1 (yields_lowerText hlower n (fun _ => trivial) (fun _ => trivial))
  | pair => exact .deeper 2 (yields_lowerPair hlower n)
  | range => exact .deeper 2 (yields_lowerRange hlower n)
  | returnNode => exact .deeper 1 (yields_lowerReturn hlower n)
  | binary => exact .deeper 2 (yields_lowerBinary hlower n)
  | unary => exact .deeper 2 (yields_lowerUnary hlower n)
  | elementReference => exact .deeper 2 (yields_lowerElementReference hlower n)
  | exceptionVariable | forNode => exact .deeper 2 (yields_lowerDeclaring hlower _ n)
  | _ =>
      -- literals and the like, with nothing below them, and constructs without a rule of their own
      first
        | exact .deeper 2 (yields_lowerGeneric hlower n (fun _ => trivial))
        | exact .pure (formed_of_range trivial (by simp))

theorem lowersFormed_lowerNode (hlower : LowersFormed lower levels) :
    LowersFormed (lowerNode s lower) (levels + 3) := by
  intro n
  unfold lowerNode
  split
  · exact .pure (by simp)
  · exact .pure (by simp)
  · exact .pure (by simp)
  · refine (yields_lowerConstruct hlower n).bind ?_
    intro term hterm
    exact .pure (by simpa using hterm.mono (by omega))

/-- Three levels for each construct, and one for what is left where the depth is used up. -/
theorem lowersFormed_lowerWithin (s : Source) (depth : Nat) :
    LowersFormed (lowerWithin s depth) (3 * depth + 1) := by
  induction depth with
  | zero =>
      intro n
      have hcut : Term.Formed (n.destructuring + 1) (written s .other [] n) :=
        formed_of_range trivial (by simp)
      exact .pure (by simpa [written] using hcut.mono (by omega))
  | succ depth ih => exact lowersFormed_lowerNode ih

theorem formed_lowerProgram (s : Source) (root : Concrete.Node) :
    (lowerProgram s root).Formed (3 * maxDepth + 2 + root.destructuring) := by
  have hterms := yields_lowerAll (lowersFormed_lowerWithin s maxDepth)
    (fun _ => Concrete.Node.destructuring_named (n := root)) .initial
  have hterm : (lowerProgram s root).Formed (3 * maxDepth + 1 + root.destructuring + 1) := by
    refine formed_of_range trivial ?_
    rw [Syntax.Child.nodes_map]
    exact hterms
  exact hterm.mono (by omega)

/-- What a node of the tree of a text shows. -/
theorem exists_formed_shows {s : Source} {root : Concrete.Node} {i : Nat}
    (hi : i < (lowerProgram s root).toTree.size) :
    ∃ levels u, Term.Formed levels u ∧ (lowerProgram s root).toTree.Shows i u := by
  have hbelow : ∀ u, (∃ levels, Term.Formed levels u) →
      ∀ v, Child.node v ∈ u.children → ∃ levels, Term.Formed levels v := by
    rintro u ⟨_, ⟨_, _, hbelow⟩⟩ v hv
    exact ⟨_, hbelow v hv⟩
  obtain ⟨u, ⟨levels, hu⟩, hshows⟩ :=
    Syntax.Term.exists_shows ⟨_, formed_lowerProgram s root⟩ hbelow hi
  exact ⟨levels, u, hu, hshows⟩

end Lowering
end RubyIndex
