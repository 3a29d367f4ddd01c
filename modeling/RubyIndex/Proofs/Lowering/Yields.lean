import RubyIndex.Proofs.Lowering.Terms

/-!
# What a step of lowering results in

Many properties of lowered terms do not depend on which local variables are known.  `Yields` states
such a property of a step, and follows the steps it is put together from.
-/

namespace RubyIndex
namespace Lowering

/-- Whatever is known about local variables, a step results in something with a property. -/
def Yields {α : Type} (step : Lowering α) (p : α → Prop) : Prop :=
  ∀ scopes, p (step.run scopes).run.1

namespace Yields

variable {α β : Type} {p : α → Prop} {q : β → Prop}

theorem pure {a : α} (h : p a) : Yields (pure a : Lowering α) p := by
  intro scopes
  exact h

theorem bind {step : Lowering α} {next : α → Lowering β} (hstep : Yields step p)
    (hnext : ∀ a, p a → Yields (next a) q) : Yields (step >>= next) q := by
  intro scopes
  exact hnext _ (hstep scopes) _

theorem of_forall {step : Lowering α} (h : ∀ a, p a) : Yields step p := by
  intro scopes
  exact h _

theorem mono {step : Lowering α} {p' : α → Prop} (hstep : Yields step p) (h : ∀ a, p a → p' a) :
    Yields step p' := by
  intro scopes
  exact h _ (hstep scopes)

/-- A step whose result does not matter, such as a declaration. -/
theorem skip {step : Lowering α} {next : α → Lowering β} (hnext : ∀ a, Yields (next a) q) :
    Yields (step >>= next) q :=
  bind (of_forall fun _ => True.intro) fun a _ => hnext a

theorem within {step : Lowering α} (h : Yields step p) (seesOuter : Bool) :
    Yields (within seesOuter step) p :=
  skip fun _ => bind h fun _ ha => skip fun _ => pure ha

end Yields
end Lowering
end RubyIndex
