import RubyIndex.Store.Basic

/-!
# Ancestor chains

A class is searched before its superclass, and so on up to a superclass that is not defined or was
already passed.  Around each of these bases stand its mixins: the prepended ones before it and the
included ones after it, later ones first.  Mixins of mixins do not count.

* `Store.bases`, a definition and its superclasses;
* `Store.expand`, a base with its mixins;
* `Store.chain`, the definitions in the order of method lookup.
-/

namespace RubyIndex
namespace Store

/-- The superclass that a definition names. -/
def superclassName? (d : Definition) : Option String :=
  d.class?.bind Class.superclass

/-- How many entries have a key outside `seen`. -/
def unseen (s : Store) (seen : List String) : Nat :=
  s.entries.countP fun entry => entry.1 ∉ seen

/-- A weaker test that one more element passes counts more elements. -/
theorem countP_lt_countP {α : Type} {p q : α → Bool} {l : List α} {a : α}
    (hle : ∀ x, p x = true → q x = true) (ha : a ∈ l) (hp : p a = false) (hq : q a = true) :
    l.countP p < l.countP q := by
  induction l with
  | nil => simp at ha
  | cons x rest ih =>
      have hrest : rest.countP p ≤ rest.countP q :=
        List.countP_mono_left fun y _ => hle y
      rw [List.countP_cons, List.countP_cons]
      rcases List.mem_cons.1 ha with rfl | hmem
      · rw [if_neg (by simp [hp]), if_pos hq]
        omega
      · have := ih hmem
        cases hx : p x with
        | false =>
            rw [if_neg (by simp)]
            split <;> omega
        | true =>
            rw [if_pos rfl, if_pos (hle x hx)]
            omega

theorem unseen_cons_lt {s : Store} {seen : List String} {name : String} {d : Definition}
    (hd : s.find? name = some d) (hn : name ∉ seen) : s.unseen (name :: seen) < s.unseen seen := by
  obtain ⟨entry, hmem, rfl⟩ := List.mem_map.1 (Assoc.mem_keys_of_find? hd)
  refine countP_lt_countP ?_ hmem (by simp) (by simpa using hn)
  intro x hx
  simp only [decide_eq_true_eq, List.mem_cons, not_or] at hx ⊢
  exact hx.2

/-- The bases from `d` on, when the names in `seen` were already passed. -/
def basesFrom (s : Store) (seen : List String) (d : Definition) : List Definition :=
  match superclassName? d with
  | none => [d]
  | some name =>
      match _hd : s.find? name with
      | none => [d]
      | some superclass =>
          if _hn : name ∈ seen then [d]
          else d :: s.basesFrom (name :: seen) superclass
termination_by s.unseen seen
decreasing_by exact unseen_cons_lt _hd _hn

/-- A definition and its superclasses. -/
def bases (s : Store) (d : Definition) : List Definition :=
  s.basesFrom [d.qualifiedName] d

/-- The defined ones among some mixins, last one first. -/
def mixins (s : Store) (names : List String) : List Definition :=
  names.reverse.filterMap s.find?

/-- A base between its mixins. -/
def expand (s : Store) (d : Definition) : List Definition :=
  match d.module? with
  | none => [d]
  | some m => s.mixins m.prepends ++ d :: s.mixins m.includes

/-- The definitions that are searched for the methods of `d`, in order. -/
def chain (s : Store) (d : Definition) : List Definition :=
  (s.bases d).flatMap s.expand

/-- The chain of what stands under a name, empty when nothing does. -/
def chainOf (s : Store) (name : String) : List Definition :=
  (s.find? name).elim [] s.chain

end Store
end RubyIndex
