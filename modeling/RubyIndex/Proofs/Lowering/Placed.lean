import RubyIndex.Proofs.Lowering.Terms
import RubyIndex.Proofs.Syntax.Shown

/-!
# Steps that place terms

A step that builds with indices refines the same step on terms if it succeeds and leaves a forest
that differs from the one before by the terms of its result, laid out one after the other, and the
scopes that the step on terms leaves.  This holds of a step whatever was built before, and is kept
when steps follow each other; a node that is added has to take what was built before and has no
parent yet, each once and in its order.

* `Progress.after`, the state with more terms laid out;
* `Results`, results in both forms, and `Progress.Places`, where their nodes are;
* `Refines`, with one rule for each way to put steps together.
-/

namespace RubyIndex
namespace Syntax

/-! ## Layout of several terms -/

/-- Children are known by their leaves and their nodes. -/
theorem Child.eq_of_nodes {a b : List (Child Nat)}
    (hleaves : a.map Child.leaf? = b.map Child.leaf?) (hnodes : Child.nodes a = Child.nodes b) :
    a = b := by
  induction a generalizing b with
  | nil => exact (List.map_eq_nil_iff.1 hleaves.symm).symm
  | cons c a ih =>
      obtain ⟨d, b, rfl, hhead, htail⟩ := List.map_eq_cons_iff.1 hleaves.symm
      cases c with
      | leaf l =>
          cases d with
          | leaf l' =>
              cases hhead
              rw [ih htail.symm hnodes]
          | node i => cases hhead
      | node i =>
          cases d with
          | leaf l' => cases hhead
          | node j =>
              obtain ⟨rfl, hrest⟩ := List.cons.inj hnodes
              rw [ih htail.symm hrest]

namespace Term

theorem Placement.append_assoc {f : Forest} (p : Placement f) (q : Placement p.forest)
    (r : Placement q.forest) : p.append (q.append r) = (p.append q).append r := by
  simp [Placement.append]

theorem placeAll_singleton (f : Forest) (t : Term) : placeAll f [.node t] = place f t := by
  simp [placeAll, Placement.append, Placement.none]

theorem placeAll_append (f : Forest) (terms later : List (Child Term)) :
    placeAll f (terms ++ later) =
      (placeAll f terms).append (placeAll (placeAll f terms).forest later) := by
  induction terms generalizing f with
  | nil => rfl
  | cons c terms ih =>
      cases c with
      | leaf l =>
          simp only [List.cons_append, placeAll, ih]
          rfl
      | node t =>
          simp only [List.cons_append, placeAll, ih]
          exact Placement.append_assoc ..

/-- Leaves add nothing to a forest. -/
theorem placeAll_nodes (f : Forest) (terms : List (Child Term)) :
    let bare := placeAll f ((Child.nodes terms).map .node)
    bare.forest = (placeAll f terms).forest ∧ bare.documented = (placeAll f terms).documented ∧
      Child.nodes bare.children = Child.nodes (placeAll f terms).children := by
  induction terms generalizing f with
  | nil => exact ⟨rfl, rfl, rfl⟩
  | cons c terms ih =>
      cases c with
      | leaf l => exact ih f
      | node t =>
          obtain ⟨hforest, hdocumented, hnodes⟩ := ih (place f t).forest
          refine ⟨hforest, congrArg ((place f t).documented ++ ·) hdocumented, ?_⟩
          exact (List.filterMap_append ..).trans
            ((congrArg ((place f t).roots ++ ·) hnodes).trans (List.filterMap_append ..).symm)

theorem leaves_placeAll (f : Forest) (terms : List (Child Term)) :
    (placeAll f terms).children.map Child.leaf? = terms.map Child.leaf? := by
  induction terms generalizing f with
  | nil => rfl
  | cons c terms ih =>
      cases c with
      | leaf l => exact congrArg (some l :: ·) (ih f)
      | node t =>
          cases t
          exact congrArg (none :: ·) (ih _)

/-- A node over children that stand in a forest already, in their order, is accepted, and then the
term of that node is laid out. -/
theorem add?_of_nodes {f : Forest} {t : Term} {nodes : List (Child Nat)}
    (hleaves : nodes.map Child.leaf? = t.children.map Child.leaf?)
    (hnodes : Child.nodes nodes =
      Child.nodes (placeAll f ((Child.nodes t.children).map .node)).children) :
    (placeAll f ((Child.nodes t.children).map .node)).forest.add? t.kind nodes t.range =
      some (place f t).forest := by
  obtain ⟨kind, children, range, documentedOn⟩ := t
  obtain ⟨hforest, -, hplaced⟩ := placeAll_nodes f children
  have hchildren : nodes = (placeAll f children).children :=
    Child.eq_of_nodes (hleaves.trans (leaves_placeAll f children).symm) (hnodes.trans hplaced)
  rw [hforest, hchildren]
  exact (sound_placeAll f children).add?_eq kind range documentedOn

/-- The node of a term stands behind those of its children, and is noted behind them. -/
theorem place_eq_of_nodes (f : Forest) (t : Term) :
    let below := placeAll f ((Child.nodes t.children).map .node)
    (place f t).roots = [below.forest.size] ∧
      (place f t).documented =
        below.documented ++ (t.documentedOn.map fun row => (below.forest.size, row)).toList := by
  obtain ⟨kind, children, range, documentedOn⟩ := t
  obtain ⟨hforest, hdocumented, -⟩ := placeAll_nodes f children
  dsimp only
  rw [hforest, hdocumented]
  exact ⟨rfl, rfl⟩

end Term
end Syntax

namespace Lowering

open Concrete (Source)
open Syntax (Kind Child Leaf Forest Term)

/-! ## States -/

/-- A term that is laid out, and the index of its node. -/
@[ext] structure Placed where
  index : Nat
  term : Term

namespace Progress

variable (p : Progress)

/-- The state with more terms laid out, and with some scopes. -/
def after (terms : List Term) (scopes : Scopes) : Progress :=
  let placed := Term.placeAll p.forest (terms.map .node)
  { forest := placed.forest
    scopes := scopes
    depth := p.depth
    documented := p.documented ++ placed.documented.toArray }

/-- The indices at which more terms come to stand. -/
def indices (terms : List Term) : List Nat :=
  Child.nodes (Term.placeAll p.forest (terms.map .node)).children

/-- Whether terms come to stand at the indices that are given with them. -/
def Places (nodes : List Placed) : Prop :=
  nodes.map (·.index) = p.indices (nodes.map (·.term))

variable {p} {nodes later : List Placed} {terms terms' : List Term} {scopes scopes' : Scopes}

@[simp] theorem depth_after : (p.after terms scopes).depth = p.depth := rfl

@[simp] theorem scopes_after : (p.after terms scopes).scopes = scopes := rfl

@[simp] theorem after_nil : p.after [] p.scopes = p := by
  simp [after, Term.placeAll, Term.Placement.none]

@[simp] theorem after_after :
    (p.after terms scopes).after terms' scopes' = p.after (terms ++ terms') scopes' := by
  simp [after, Term.placeAll_append, Term.Placement.append]

theorem indices_append :
    p.indices (terms ++ terms') = p.indices terms ++ (p.after terms scopes).indices terms' := by
  simp [indices, after, Term.placeAll_append, Term.Placement.append]

theorem after_singleton (t : Term) :
    p.after [t] scopes =
      { forest := (Term.place p.forest t).forest
        scopes := scopes
        depth := p.depth
        documented := p.documented ++ (Term.place p.forest t).documented.toArray } := by
  rw [after, List.map_singleton, Term.placeAll_singleton]

theorem indices_singleton (t : Term) : p.indices [t] = (Term.place p.forest t).roots := by
  rw [indices, List.map_singleton, Term.placeAll_singleton]
  rfl

theorem places_nil : p.Places [] := rfl

theorem Places.append (hnodes : p.Places nodes)
    (hlater : (p.after (nodes.map (·.term)) scopes).Places later) : p.Places (nodes ++ later) := by
  unfold Places at *
  rw [List.map_append, List.map_append, indices_append, hnodes, hlater]

/-- A placed term is shown by the node at its index. -/
theorem Places.shows (h : p.Places nodes) (scopes : Scopes) {node : Placed} (hnode : node ∈ nodes) :
    (p.after (nodes.map (·.term)) scopes).forest.Shows node.index node.term :=
  (Term.faithful_placeAll p.forest _).shows_children.shows_of_mem h.symm (Child.nodes_map _) hnode

end Progress

/-- Adding a node above terms that are laid out is the same as laying out the node with them. -/
theorem run_node {t : Term} (p : Progress) (scopes : Scopes) {children : List (Child Nat)}
    (hleaves : children.map Child.leaf? = t.children.map Child.leaf?)
    (hnodes : Child.nodes children = p.indices (Child.nodes t.children)) :
    ∃ index, p.indices [t] = [index] ∧
      (Builder.node t.kind children t.range t.documentedOn : Building Nat).run
        (p.after (Child.nodes t.children) scopes) = some (index, p.after [t] scopes) := by
  let below := Term.placeAll p.forest ((Child.nodes t.children).map .node)
  obtain ⟨hroots, hdocumented⟩ := Term.place_eq_of_nodes p.forest t
  have hadd : below.forest.add? t.kind children t.range = some (Term.place p.forest t).forest :=
    Term.add?_of_nodes hleaves hnodes
  refine ⟨below.forest.size, (Progress.indices_singleton t).trans hroots, ?_⟩
  · rw [Progress.after_singleton, hdocumented]
    show (below.forest.add? t.kind children t.range).bind _ = _
    rw [hadd, Option.bind_some]
    cases t.documentedOn <;> simp [Progress.after, below]

/-- Children in both forms, and the nodes among them. -/
structure Alike (children : List (Child Nat)) (terms : List (Child Term)) (nodes : List Placed) :
    Prop where
  leaves_eq : children.map Child.leaf? = terms.map Child.leaf?
  indices_eq : Child.nodes children = nodes.map (·.index)
  terms_eq : Child.nodes terms = nodes.map (·.term)

namespace Alike

variable {children : List (Child Nat)} {terms : List (Child Term)} {nodes : List Placed}

theorem nil : Alike [] [] [] :=
  ⟨rfl, rfl, rfl⟩

theorem leaf (l : Leaf) (h : Alike children terms nodes) :
    Alike (.leaf l :: children) (.leaf l :: terms) nodes :=
  ⟨congrArg (some l :: ·) h.leaves_eq, h.indices_eq, h.terms_eq⟩

theorem node (n : Placed) (h : Alike children terms nodes) :
    Alike (.node n.index :: children) (.node n.term :: terms) (n :: nodes) :=
  ⟨congrArg (none :: ·) h.leaves_eq, congrArg (n.index :: ·) h.indices_eq,
    congrArg (n.term :: ·) h.terms_eq⟩

/-- A node in both forms, or nil in its place. -/
theorem option (n : Option Placed) (h : Alike children terms nodes) :
    Alike (.ofOption (n.map (·.index)) :: children) (.ofOption (n.map (·.term)) :: terms)
      (n.toList ++ nodes) := by
  cases n with
  | none => exact h.leaf .nil
  | some n => exact h.node n

theorem list (nodes : List Placed) :
    Alike ((nodes.map (·.index)).map .node) ((nodes.map (·.term)).map .node) nodes := by
  induction nodes with
  | nil => exact .nil
  | cons n nodes ih => exact ih.node n

theorem append {children' : List (Child Nat)} {terms' : List (Child Term)} {nodes' : List Placed}
    (h : Alike children terms nodes) (h' : Alike children' terms' nodes') :
    Alike (children ++ children') (terms ++ terms') (nodes ++ nodes') where
  leaves_eq := by simp only [List.map_append, h.leaves_eq, h'.leaves_eq]
  indices_eq := by simp only [Child.nodes_append, List.map_append, h.indices_eq, h'.indices_eq]
  terms_eq := by simp only [Child.nodes_append, List.map_append, h.terms_eq, h'.terms_eq]

end Alike

/-! ## Results -/

/-- Results of a step in both forms at once: with indices for nodes, and with terms. -/
class Results (δ : Type) (γ β : outParam Type) where
  built : δ → γ
  term : δ → β
  /-- The nodes in a result, in the order in which they were built. -/
  nodes : δ → List Placed

namespace Results

instance : Results Placed Nat Term :=
  ⟨Placed.index, Placed.term, fun node => [node]⟩

instance : Results (Option Placed) (Option Nat) (Option Term) :=
  ⟨Option.map Placed.index, Option.map Placed.term, Option.toList⟩

instance : Results (List Placed) (List Nat) (List Term) :=
  ⟨List.map Placed.index, List.map Placed.term, id⟩

instance {δ δ' γ γ' β β' : Type} [Results δ γ β] [Results δ' γ' β'] :
    Results (δ × δ') (γ × γ') (β × β') :=
  ⟨Prod.map built built, Prod.map term term, fun r => nodes r.1 ++ nodes r.2⟩

instance : Results Unit Unit Unit :=
  ⟨id, id, fun _ => []⟩

section Forms

variable (node : Placed) (option : Option Placed) (list : List Placed)

@[simp] theorem built_node : built node = node.index := rfl

@[simp] theorem term_node : term node = node.term := rfl

@[simp] theorem nodes_node : nodes node = [node] := rfl

@[simp] theorem built_option : built option = option.map (·.index) := rfl

@[simp] theorem term_option : term option = option.map (·.term) := rfl

@[simp] theorem nodes_option : nodes option = option.toList := rfl

@[simp] theorem built_list : built list = list.map (·.index) := rfl

@[simp] theorem term_list : term list = list.map (·.term) := rfl

@[simp] theorem nodes_list : nodes list = list := rfl

variable {δ δ' γ γ' β β' : Type} [Results δ γ β] [Results δ' γ' β'] (r : δ) (r' : δ')

@[simp] theorem built_prod : built (r, r') = (built r, built r') := rfl

@[simp] theorem term_prod : term (r, r') = (term r, term r') := rfl

@[simp] theorem nodes_prod : nodes (r, r') = nodes r ++ nodes r' := rfl

end Forms
end Results

/-! ## Refinement -/

/-- With some nodes built since the state `p` at a depth, a step goes on as the step on terms does:
it turns all of them into its result and adds nothing else to the forest. -/
def Refines (δ : Type) {γ β : Type} [Results δ γ β] (depth : Nat) (known : List Placed)
    (step : Building γ) (onTerms : Lowering β) : Prop :=
  ∀ (p : Progress) (scopes : Scopes), p.depth = depth → p.Places known →
    ∃ r : δ, p.Places (Results.nodes r) ∧
      (onTerms.run scopes).run.1 = Results.term r ∧
      step.run (p.after (known.map (·.term)) scopes) =
        some (Results.built r,
          p.after ((Results.nodes r).map (·.term)) (onTerms.run scopes).run.2)

/-- A step that only looks at what was built, and finds what the step on terms does. -/
def Observes {γ : Type} (depth : Nat) (known : List Placed) (step : Building γ)
    (onTerms : Lowering γ) : Prop :=
  ∀ (p : Progress) (scopes : Scopes), p.depth = depth → p.Places known →
    ∃ a, onTerms.run scopes = (a, scopes) ∧
      step.run (p.after (known.map (·.term)) scopes) =
        some (a, p.after (known.map (·.term)) scopes)

variable {depth : Nat} {known : List Placed}

namespace Refines

variable {δ δ' γ γ' β β' : Type} [Results δ γ β] [Results δ' γ' β']
  {step : Building γ} {onTerms : Lowering β} {next : γ → Building γ'}
  {nextOnTerms : β → Lowering β'}

theorem pure (r : δ) {c : γ} {b : β} (hnodes : Results.nodes r = known)
    (hbuilt : Results.built r = c) (hterm : Results.term r = b) :
    Refines δ depth known (pure c) (pure b) := by
  subst hnodes hbuilt hterm
  intro p scopes _ hplaces
  exact ⟨r, hplaces, rfl, rfl⟩

theorem bind (hstep : Refines δ depth [] step onTerms)
    (hnext : ∀ r : δ, Refines δ' depth (known ++ Results.nodes r) (next (Results.built r))
      (nextOnTerms (Results.term r))) :
    Refines δ' depth known (step >>= next) (onTerms >>= nextOnTerms) := by
  intro p scopes hdepth hplaces
  -- the first step starts where the known nodes are built, and the second where its own are too
  obtain ⟨r, hr, hterm, hrun⟩ :=
    hstep (p.after (known.map (·.term)) scopes) scopes hdepth Progress.places_nil
  have hstart : (p.after (known.map (·.term)) scopes).after [] scopes =
      p.after (known.map (·.term)) scopes := Progress.after_nil
  rw [List.map_nil, hstart, Progress.after_after, ← List.map_append] at hrun
  obtain ⟨r', hr', hnext'⟩ := hnext r p (onTerms.run scopes).run.2 hdepth (hplaces.append hr)
  refine ⟨r', hr', ?_⟩
  rw [StateT.run_bind, Id.run_bind, hterm, StateT.run_bind, hrun]
  exact hnext'

/-- A step that takes up all that is known. -/
theorem last (hstep : Refines δ depth known step onTerms)
    (hnext : ∀ r : δ, Refines δ' depth (Results.nodes r) (next (Results.built r))
      (nextOnTerms (Results.term r))) :
    Refines δ' depth known (step >>= next) (onTerms >>= nextOnTerms) := by
  intro p scopes hdepth hplaces
  obtain ⟨r, hr, hterm, hrun⟩ := hstep p scopes hdepth hplaces
  obtain ⟨r', hr', hnext'⟩ := hnext r p (onTerms.run scopes).run.2 hdepth hr
  refine ⟨r', hr', ?_⟩
  rw [StateT.run_bind, Id.run_bind, hterm, StateT.run_bind, hrun]
  exact hnext'

/-- A step whose result does not matter, such as a declaration. -/
theorem skip {step : Building Unit} {onTerms : Lowering Unit} {next : Unit → Building γ'}
    {nextOnTerms : Unit → Lowering β'} (hstep : Refines Unit depth [] step onTerms)
    (hnext : Refines δ' depth known (next ()) (nextOnTerms ())) :
    Refines δ' depth known (step >>= next) (onTerms >>= nextOnTerms) := by
  refine hstep.bind ?_
  intro r
  rw [show Results.nodes r = [] from rfl, List.append_nil]
  exact hnext

/-- A node above all that is known. -/
theorem node {kind : Kind} {children : List (Child Nat)} {terms : List (Child Term)}
    {range : Option Range} {documentedOn : Option Nat} (h : Alike children terms known) :
    Refines Placed depth known (Builder.node kind children range documentedOn)
      (Builder.node kind terms range documentedOn) := by
  intro p scopes _ hplaces
  let term : Term := ⟨kind, terms, range, documentedOn⟩
  have hindices : Child.nodes children = p.indices (Child.nodes term.children) := by
    rw [h.indices_eq, hplaces, ← h.terms_eq]
  obtain ⟨index, hindex, hrun⟩ := run_node (t := term) p scopes h.leaves_eq hindices
  refine ⟨⟨index, term⟩, hindex.symm, rfl, ?_⟩
  rw [← h.terms_eq]
  exact hrun

/-- Looking at what was built does not change it. -/
theorem read {α : Type} {step : Building α} {onTerms : Lowering α} {next : α → Building γ}
    {nextOnTerms : α → Lowering β} (hstep : Observes depth known step onTerms)
    (hnext : ∀ a, Refines δ depth known (next a) (nextOnTerms a)) :
    Refines δ depth known (step >>= next) (onTerms >>= nextOnTerms) := by
  intro p scopes hdepth hplaces
  obtain ⟨a, honTerms, hrun⟩ := hstep p scopes hdepth hplaces
  obtain ⟨r, hr, hterm, hrun'⟩ := hnext a p scopes hdepth hplaces
  have hterms : (onTerms >>= nextOnTerms).run scopes = (nextOnTerms a).run scopes := by
    rw [StateT.run_bind, honTerms]
    rfl
  refine ⟨r, hr, by rw [hterms]; exact hterm, ?_⟩
  rw [hterms, ← hrun', StateT.run_bind, hrun]
  rfl

/-- A step that only changes the scopes. -/
theorem modify (change : Scopes → Scopes) :
    Refines Unit depth [] (modify change) (modify change) := by
  intro p scopes _ _
  exact ⟨(), Progress.places_nil, rfl, rfl⟩

/-- A step in a frame of its own. -/
theorem within (hstep : Refines δ depth [] step onTerms) (seesOuter : Bool) :
    Refines δ depth [] (within seesOuter step) (within seesOuter onTerms) := by
  intro p scopes hdepth hplaces
  obtain ⟨r, hr, hterm, hrun⟩ := hstep p (scopes.push seesOuter) hdepth hplaces
  refine ⟨r, hr, hterm, ?_⟩
  have hwithin : (Lowering.within seesOuter step).run (p.after [] scopes) =
      (step.run (p.after [] (scopes.push seesOuter))).bind fun r =>
        some (r.1, { r.2 with scopes := r.2.scopes.pop }) := rfl
  rw [List.map_nil] at hrun ⊢
  rw [hwithin, hrun]
  rfl

/-- A step one level deeper comes back to the level it started from. -/
theorem nested (hstep : Refines δ (depth + 1) [] step onTerms) :
    Refines δ depth [] (nested step) onTerms := by
  intro p scopes hdepth _
  obtain ⟨r, hr, hterm, hrun⟩ :=
    hstep { p with depth := p.depth + 1 } scopes (congrArg (· + 1) hdepth) Progress.places_nil
  refine ⟨r, hr, hterm, ?_⟩
  have hnested : (Lowering.nested step).run (p.after [] scopes) =
      (step.run (Progress.after { p with depth := p.depth + 1 } [] scopes)).bind fun r =>
        some (r.1, { r.2 with depth := r.2.depth - 1 }) := rfl
  rw [List.map_nil] at hrun ⊢
  rw [hnested, hrun]
  rfl

/-- A step that depends on the depth. -/
theorem atDepth {next : Progress → Building γ}
    (hnext : ∀ p, p.depth = depth → Refines δ depth known (next p) onTerms) :
    Refines δ depth known (getThe Progress >>= next) onTerms := by
  intro p scopes hdepth hplaces
  exact hnext (p.after (known.map (·.term)) scopes) hdepth p scopes hdepth hplaces

/-- Steps on indices that refine the same step on terms do the same. -/
theorem run_eq {step step' : Building (Option Nat)} {onTerms : Lowering (Option Term)}
    (h : Refines (Option Placed) depth [] step onTerms)
    (h' : Refines (Option Placed) depth [] step' onTerms) {p : Progress}
    (hdepth : p.depth = depth) :
    step.run p = step'.run p := by
  obtain ⟨r, hr, hterm, hrun⟩ := h p p.scopes hdepth Progress.places_nil
  obtain ⟨r', hr', hterm', hrun'⟩ := h' p p.scopes hdepth Progress.places_nil
  have hterms : r.map (·.term) = r'.map (·.term) := hterm.symm.trans hterm'
  -- the terms are the same, and so are the indices at which they come to stand
  have hindices : r.toList.map (·.index) = r'.toList.map (·.index) := by
    calc r.toList.map (·.index)
        = p.indices (r.map (·.term)).toList := by rw [Option.toList_map]; exact hr
      _ = p.indices (r'.map (·.term)).toList := by rw [hterms]
      _ = r'.toList.map (·.index) := by rw [Option.toList_map]; exact hr'.symm
  have hsame : r = r' := by
    cases r <;> cases r' <;> simp_all [Placed.ext_iff]
  rw [List.map_nil, Progress.after_nil] at hrun hrun'
  rw [hrun, hrun', hsame]

end Refines

namespace Observes

theorem get : Observes depth known (get : Building Scopes) get := by
  intro p scopes _ _
  exact ⟨scopes, rfl, rfl⟩

theorem range? {node : Placed} (hnode : node ∈ known) :
    Observes depth known (Builder.range? node.index) (Builder.range? node.term) := by
  intro p scopes _ hplaces
  obtain ⟨hn, -, hrange, -⟩ := hplaces.shows scopes hnode
  refine ⟨node.term.range, rfl, ?_⟩
  rw [← hrange]
  exact congrArg (fun n => some (n.bind Syntax.Node.range, _)) hn

variable {α α' : Type} {step : Building α} {onTerms : Lowering α} {next : α → Building α'}
  {nextOnTerms : α → Lowering α'}

theorem pure (a : α) : Observes depth known (pure a) (pure a) := by
  intro p scopes _ _
  exact ⟨a, rfl, rfl⟩

theorem bind (hstep : Observes depth known step onTerms)
    (hnext : ∀ a, Observes depth known (next a) (nextOnTerms a)) :
    Observes depth known (step >>= next) (onTerms >>= nextOnTerms) := by
  intro p scopes hdepth hplaces
  obtain ⟨a, honTerms, hrun⟩ := hstep p scopes hdepth hplaces
  obtain ⟨a', honTerms', hrun'⟩ := hnext a p scopes hdepth hplaces
  refine ⟨a', ?_, ?_⟩
  · rw [StateT.run_bind, honTerms]
    exact honTerms'
  · rw [StateT.run_bind, hrun]
    exact hrun'

end Observes

end Lowering
end RubyIndex
