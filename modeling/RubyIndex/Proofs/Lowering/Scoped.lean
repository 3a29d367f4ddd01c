import RubyIndex.Proofs.Lowering.Refinement
import RubyIndex.Proofs.Lowering.Scoping

/-!
# Local variables of a forest

Lowering a node from any state leaves all frames around the innermost one as they were, adds to that
one only the names declared in it, comes back to the depth it started from, and a name on its own
becomes a local variable exactly when it was declared before in a frame that is still in sight.

* `Term.postorder`, the nodes of a term in the order in which they are laid out;
* `Progress.localVars`, the local variables among the nodes that lowering has added;
* `Scoped`, `lower_scoped`, what lowering a node does to the state.
-/

namespace RubyIndex
namespace Syntax

/-! ## Nodes in the order of the layout -/

namespace Term

mutual

/-- A term and all terms below it, each behind those below it. -/
def postorder : Term → List Term
  | t@⟨_, children, _, _⟩ => postorderOf children ++ [t]

def postorderOf : List (Child Term) → List Term
  | [] => []
  | .leaf _ :: rest => postorderOf rest
  | .node t :: rest => postorder t ++ postorderOf rest

end

/-- What a node shows of a term apart from the nodes below. -/
def outline (t : Term) : Kind × List (Option Leaf) × Option Range :=
  (t.kind, t.children.map Child.leaf?, t.range)

end Term

def Node.outline (n : Node) : Kind × List (Option Leaf) × Option Range :=
  (n.kind, n.children.map Child.leaf?, n.range)

theorem Forest.outline_attach (owner : Nat) (children : List (Child Nat)) (nodes : Array Node) :
    (attach owner children nodes).toList.map Node.outline = nodes.toList.map Node.outline := by
  refine List.ext_getElem? ?_
  intro i
  rw [List.getElem?_map, List.getElem?_map, Array.getElem?_toList, Array.getElem?_toList,
    getElem?_attach]
  split
  · rw [Option.map_map]
    rfl
  · rfl

namespace Term

-- along the layout: the nodes that were there only get a parent, and each term adds one node

mutual

theorem outline_place (f : Forest) : ∀ t : Term,
    (place f t).forest.nodes.toList.map Node.outline =
      f.nodes.toList.map Node.outline ++ (postorder t).map outline
  | ⟨kind, children, range, documentedOn⟩ => by
      have hbelow := outline_placeAll f children
      have hleaves := leaves_placeAll f children
      simp only [place, Placement.close, Forest.add, Array.toList_push, List.map_append,
        Forest.outline_attach, hbelow, postorder, List.append_assoc, List.map_singleton]
      rw [outline, Node.outline, hleaves]

theorem outline_placeAll (f : Forest) : ∀ children : List (Child Term),
    (placeAll f children).forest.nodes.toList.map Node.outline =
      f.nodes.toList.map Node.outline ++ (postorderOf children).map outline
  | [] => by simp [placeAll, Placement.none, postorderOf]
  | .leaf l :: rest => outline_placeAll f rest
  | .node t :: rest => by
      have hfirst := outline_place f t
      have hrest := outline_placeAll (place f t).forest rest
      rw [placeAll, postorderOf, List.map_append, ← List.append_assoc, ← hfirst]
      exact hrest

end

mutual

theorem localVars_eq_filter : ∀ t : Term,
    localVars t = (postorder t).filter fun u => u.kind = .localVar
  | ⟨kind, children, range, row⟩ => by
      have hbelow := localVarsOf_eq_filter children
      simp [localVars, postorder, hbelow, List.filter_cons]

theorem localVarsOf_eq_filter : ∀ children : List (Child Term),
    localVarsOf children = (postorderOf children).filter fun u => u.kind = .localVar
  | [] => by simp [postorderOf]
  | .leaf l :: rest => by
      have hrest := localVarsOf_eq_filter rest
      simpa [postorderOf] using hrest
  | .node t :: rest => by
      have hfirst := localVars_eq_filter t
      have hrest := localVarsOf_eq_filter rest
      simp [postorderOf, hfirst, hrest]

end

end Term
end Syntax

namespace Lowering

open Concrete (Source)
open Syntax (Kind Child Leaf Forest Term)

/-! ## Nodes that were added -/

namespace Progress

/-- The nodes that have been added to a state to come to another. -/
def added (p p' : Progress) : List Syntax.Node :=
  p'.forest.nodes.toList.drop p.forest.size

/-- The children and the ranges of the local variables among the nodes that have been added. -/
def localVars (p p' : Progress) : List (List (Child Nat) × Option Range) :=
  ((p.added p').filter fun n => n.kind = .localVar).map fun n => (n.children, n.range)

variable {p : Progress} {terms : List Term} {scopes : Scopes}

theorem outline_added (p : Progress) (terms : List Term) (scopes : Scopes) :
    (p.added (p.after terms scopes)).map Syntax.Node.outline =
      (Term.postorderOf (terms.map .node)).map Term.outline := by
  have houtline := Term.outline_placeAll p.forest (terms.map .node)
  have hsize : p.forest.size = (p.forest.nodes.toList.map Syntax.Node.outline).length := by
    simp [Forest.size]
  rw [added, List.map_drop, after, houtline, hsize, List.drop_left]

/-- A node with the outline of a local variable. -/
theorem children_of_outline {n : Syntax.Node} {name : String} {range : Range}
    (h : n.outline = (localVar name range).outline) :
    (n.children, n.range) = ([symbol name], some range) := by
  obtain ⟨-, hleaves, hrange⟩ : n.kind = .localVar ∧
      n.children.map Child.leaf? = [some (.symbol name)] ∧ n.range = some range := by
    simpa [Syntax.Node.outline, Term.outline, localVar, symbol, Child.leaf?] using h
  obtain ⟨c, hchildren, hleaf⟩ := List.map_eq_singleton_iff.1 hleaves
  rw [hchildren, hrange]
  cases c with
  | node i => cases hleaf
  | leaf l =>
      cases hleaf
      rfl

/-- The local variables among the nodes are those in the terms, if these consist of a name. -/
theorem localVars_after {names : List Mention}
    (h : Term.localVarsAll terms = names.map fun m => localVar m.name m.range) :
    p.localVars (p.after terms scopes) = names.map fun m => ([symbol m.name], some m.range) := by
  have hterms : (Term.postorderOf (terms.map .node)).filter (fun u => u.kind = .localVar) =
      names.map fun m => localVar m.name m.range := by
    rw [← Term.localVarsOf_eq_filter, Term.localVarsOf_map, h]
  have houtline := congrArg (List.filter fun o => o.1 = Kind.localVar)
    (p.outline_added terms scopes)
  rw [List.filter_map, List.filter_map] at houtline
  have hterms' : (Term.postorderOf (terms.map .node)).filter
      ((fun o => decide (o.1 = Kind.localVar)) ∘ Term.outline) =
        names.map fun m => localVar m.name m.range := hterms
  rw [hterms', List.map_map, ← List.forall₂_eq_eq_eq, List.forall₂_map_left_iff,
    List.forall₂_map_right_iff] at houtline
  rw [localVars, ← List.forall₂_eq_eq_eq, List.forall₂_map_left_iff, List.forall₂_map_right_iff]
  exact houtline.imp fun _ _ => children_of_outline

end Progress

/-! ## Scoping -/

/-- Running a rule for a node anywhere adds what the term of the node lays out. -/
theorem run_lower (s : Source) (n : Concrete.Node) (p : Progress) :
    ∃ node, (lower s n).run p = some (node,
      p.after ((lowerWithin s (maxDepth - p.depth) n).run p.scopes).run.1.toList
        ((lowerWithin s (maxDepth - p.depth) n).run p.scopes).run.2) := by
  obtain ⟨r, -, hterm, hrun⟩ := lowersAlike_lower s p.depth n p p.scopes rfl Progress.places_nil
  rw [List.map_nil, Progress.after_nil] at hrun
  refine ⟨Results.built r, hrun.trans ?_⟩
  rw [hterm]
  simp [Option.toList_map]

/-- The local variables that lowering a node adds are the known names among those on their own. -/
theorem localVars_run_lower (s : Source) (n : Concrete.Node) (p : Progress) :
    ∃ node p', (lower s n).run p = some (node, p') ∧ p.localVars p' =
      ((mentions (trace s (maxDepth - p.depth) n)).filter fun m =>
        Known p.scopes m.past m.name).map fun m => ([symbol m.name], some m.range) := by
  have hfollows := lowersAlong_lowerWithin s (maxDepth - p.depth) n
  have hvars := hfollows.vars_eq p.scopes
  rw [List.nil_append] at hvars
  obtain ⟨node, hrun⟩ := run_lower s n p
  exact ⟨node, _, hrun, Progress.localVars_after
    (hvars.trans (found_replay_eq _ p.scopes [] hfollows.balanced))⟩

/-- What the events of a node mean for the state it is lowered in. -/
structure Scoped (s : Source) (events : List Event) (p p' : Progress) : Prop where
  /-- Lowering comes back to the depth it started from. -/
  depth_eq : p'.depth = p.depth
  /-- The frames are those after the events. -/
  replayed : p'.scopes = replay events p.scopes
  /-- They are as many as before, and all but the innermost one are as they were. -/
  frames_eq : p'.scopes.frames =
    ⟨p'.scopes.inner.locals, p.scopes.inner.seesOuter⟩ :: p.scopes.outer
  /-- The innermost one has gained the names that were declared while it was the innermost one. -/
  mem_locals : ∀ name, name ∈ p'.scopes.inner.locals ↔
    name ∈ p.scopes.inner.locals ∨
      ∃ before, before ++ [.declare name] <+: events ∧ Balanced before
  /-- Whenever a frame is closed, there is another one around it. -/
  outer_ne_nil : ∀ before, before ++ [.leave] <+: events → (replay before p.scopes).outer ≠ []
  /-- A name on its own makes a local variable exactly when it is known by then. -/
  localVar_iff : ∀ before (m : Concrete.Node),
    before ++ [.mention (s.text m) (s.range m)] <+: events →
      ∀ q : Progress, q.scopes = replay before p.scopes →
        ∃ i q', (lowerIdentifier s m : Building Nat).run q = some (i, q') ∧
          ((q'.forest.nodes[i]?).map Syntax.Node.kind = some .localVar ↔
            Known p.scopes before (s.text m))
  /-- The local variables that were added are the known ones among the names on their own. -/
  localVars_eq : p.localVars p' =
    ((mentions events).filter fun m => Known p.scopes m.past m.name).map
      fun m => ([symbol m.name], some m.range)

/-- A name on its own is looked up in the frames at hand. -/
theorem kind_of_lowerIdentifier (s : Source) (m : Concrete.Node) (q : Progress) :
    ∃ i q', (lowerIdentifier s m : Building Nat).run q = some (i, q') ∧
      ((q'.forest.nodes[i]?).map Syntax.Node.kind = some .localVar ↔
        q.scopes.isLocal (s.text m) = true) := by
  obtain ⟨node, hplaces, hterm, hrun⟩ :=
    refines_lowerIdentifier (s := s) m q q.scopes rfl Progress.places_nil
  rw [List.map_nil, Progress.after_nil] at hrun
  refine ⟨node.index, _, hrun, ?_⟩
  obtain ⟨hn, hkind, -, -⟩ := hplaces.shows _ (List.mem_singleton_self node)
  have hterm' : ((lowerIdentifier s m : Lowering Term).run q.scopes).run.1 = node.term := hterm
  rw [← kind_lowerIdentifier (s := s) m q.scopes, hterm', ← hkind]
  exact (Eq.congr_left (congrArg (Option.map Syntax.Node.kind) hn)).trans Option.some_inj

/-- Lowering a node succeeds from any state, and keeps to the scopes of local variables. -/
theorem lower_scoped (s : Source) (n : Concrete.Node) (p : Progress) :
    ∃ node p', (lower s n).run p = some (node, p') ∧
      Scoped s (trace s (maxDepth - p.depth) n) p p' := by
  have hfollows := lowersAlong_lowerWithin s (maxDepth - p.depth) n
  have hbalanced := hfollows.balanced
  have hscopes := hfollows.scopes_eq p.scopes
  obtain ⟨names, hframes⟩ := hbalanced.frames_replay p.scopes
  obtain ⟨node, hrun⟩ := run_lower s n p
  obtain ⟨_, _, hrun', hvars⟩ := localVars_run_lower s n p
  cases hrun'.symm.trans hrun
  refine ⟨node, _, hrun, rfl, hscopes, ?_, ?_, ?_, ?_, hvars⟩
  · rw [Progress.scopes_after, hscopes]
    obtain ⟨hinner, -⟩ := List.cons.inj hframes
    rw [hframes, hinner]
  · intro name
    rw [Progress.scopes_after, hscopes]
    exact hbalanced.mem_locals_replay p.scopes name
  · rintro before ⟨rest, hrest⟩
    have hleave : Balanced (before ++ .leave :: rest) := by simpa [← hrest] using hbalanced
    exact hleave.outer_replay_ne_nil p.scopes
  · rintro before m ⟨rest, hrest⟩ q hq
    have hbefore : Balanced (before ++ (.mention (s.text m) (s.range m) :: rest)) := by
      simpa [← hrest] using hbalanced
    have hknown : (replay before p.scopes).isLocal (s.text m) = true ↔
        Known p.scopes before (s.text m) :=
      isLocal_replay_iff (hbefore.closed_before_lt p.scopes)
    obtain ⟨i, q', hrun', hlocal⟩ := kind_of_lowerIdentifier s m q
    rw [hq] at hlocal
    exact ⟨i, q', hrun', hlocal.trans hknown⟩

end Lowering
end RubyIndex
