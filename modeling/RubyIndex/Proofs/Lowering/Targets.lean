import Mathlib.Logic.Relation
import RubyIndex.Lowering.Parameter
import RubyIndex.Proofs.Concrete.Arranged

/-!
# Names in assignment targets

Assigning to a target assigns to the identifiers in it that are reached without going into a call,
an element or a scoped constant.

* `Node.GoesInto`, a step of a way down that goes into some nodes only, and `Node.reached`, where
  all such ways lead;
* `Node.targets`, the identifiers that are assigned to, and `Node.mem_targets_iff`;
* `targetNames_eq`, their names are those that lowering declares.
-/

namespace RubyIndex
namespace Concrete
namespace Node

/-! ## Ways down -/

/-- The way down goes on from a node to a child, as far as it goes into nodes of that kind. -/
def GoesInto (enters : Kind → Bool) (n c : Node) : Prop :=
  enters n.kind = true ∧ c ∈ n.namedChildren

mutual

/-- A node and what is reached from it, in the order of the text. -/
def reached (enters : Kind → Bool) : Node → List Node
  | n@⟨_, kind, _, _, _, _, children⟩ => n :: if enters kind then reachedOf enters children else []

def reachedOf (enters : Kind → Bool) : List Node → List Node
  | [] => []
  | n :: rest =>
      if n.named && !n.isExtra then reached enters n ++ reachedOf enters rest
      else reachedOf enters rest

end

variable {enters : Kind → Bool} {n m : Node}

theorem reachedOf_eq (nodes : List Node) :
    reachedOf enters nodes =
      (nodes.filter fun c => c.named && !c.isExtra).flatMap (reached enters) := by
  induction nodes with
  | nil => simp [reachedOf]
  | cons n nodes ih =>
      rw [reachedOf, ih, List.filter_cons]
      split <;> rfl

theorem reached_eq (n : Node) :
    n.reached enters =
      n :: if enters n.kind then n.namedChildren.flatMap (reached enters) else [] := by
  cases n
  rw [reached, reachedOf_eq]
  rfl

theorem mem_reached_of_way (h : Relation.ReflTransGen (GoesInto enters) n m) :
    m ∈ n.reached enters := by
  induction h using Relation.ReflTransGen.head_induction_on with
  | refl =>
      rw [reached_eq]
      exact List.mem_cons_self
  | head hstep _ ih =>
      rw [reached_eq, if_pos hstep.1]
      exact List.mem_cons_of_mem _ (List.mem_flatMap.2 ⟨_, hstep.2, ih⟩)

theorem way_of_mem_reached (n : Node) (h : m ∈ n.reached enters) :
    Relation.ReflTransGen (GoesInto enters) n m := by
  rw [reached_eq, List.mem_cons] at h
  rcases h with rfl | h
  · exact .refl
  · split at h
    · rename_i henters
      obtain ⟨c, hc, hm⟩ := List.mem_flatMap.1 h
      have hlt := sizeOf_lt_of_mem_children (List.mem_filter.1 hc).1
      exact .head ⟨henters, hc⟩ (way_of_mem_reached c hm)
    · cases h
termination_by sizeOf n

theorem mem_reached_iff :
    m ∈ n.reached enters ↔ Relation.ReflTransGen (GoesInto enters) n m :=
  ⟨way_of_mem_reached n, mem_reached_of_way⟩

/-! ## Targets -/

/-- Whether an assignment to a node is one to its parts.  A name has none, and the parts of a call,
an element or a scoped constant are read. -/
def assignsParts (kind : Kind) : Bool :=
  kind ∉ [.identifier, .call, .elementReference, .scopeResolution]

/-- The identifiers that an assignment to a target assigns to. -/
def targets (n : Node) : List Node :=
  (n.reached assignsParts).filter fun m => m.kind = .identifier

theorem mem_targets_iff :
    m ∈ n.targets ↔
      Relation.ReflTransGen (GoesInto assignsParts) n m ∧ m.kind = .identifier := by
  rw [targets, List.mem_filter, mem_reached_iff, decide_eq_true_eq]

end Node
end Concrete

namespace Lowering

open Concrete (Source)

mutual

/-- What lowering declares for a target are the names of these identifiers. -/
theorem targetNames_eq (s : Source) :
    ∀ n : Concrete.Node, targetNames s n = n.targets.map s.text
  | ⟨id, kind, named, start, stop, role, children⟩ => by
      have hbelow := targetNamesOf_eq s children
      unfold targetNames Concrete.Node.targets Concrete.Node.reached
      cases kind <;> simp [Concrete.Node.assignsParts, hbelow]

theorem targetNamesOf_eq (s : Source) : ∀ nodes : List Concrete.Node,
    targetNamesOf s nodes =
      ((Concrete.Node.reachedOf Concrete.Node.assignsParts nodes).filter fun m =>
        m.kind = .identifier).map s.text
  | [] => by
      simp [targetNamesOf, Concrete.Node.reachedOf]
  | n :: rest => by
      have hn := targetNames_eq s n
      have hrest := targetNamesOf_eq s rest
      unfold targetNamesOf Concrete.Node.reachedOf
      split
      · rw [hn, hrest, List.filter_append, List.map_append]
        rfl
      · exact hrest

end

end Lowering
end RubyIndex
