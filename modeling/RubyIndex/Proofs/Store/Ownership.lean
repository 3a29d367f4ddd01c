import RubyIndex.Proofs.Store.Reindex

/-!
# Documents that declare for themselves

When every document declares definitions located in itself, the location of a definition alone
decides with which document it goes: a definition without a location is never dropped, and any
other one is dropped with the document it is located in.

* `Store.Tracked`, what then holds of a store, with one lemma for each operation;
* `Store.outline?_removeUri_iff`, `Store.outline?_update_iff`, what is left by a removal and what
  stands in the store after a document was reindexed.
-/

namespace RubyIndex
namespace Store

/-- A consistent store in which what stands under a listed name has a location. -/
structure Tracked (s : Store) : Prop extends Consistent s where
  located : ∀ {name d uri}, name ∈ s.listing uri → s.find? name = some d → d.uri ≠ none

/-- Every definition is located in the document. -/
def OwnedBy (uri : String) (definitions : List Definition) : Prop :=
  ∀ d ∈ definitions, d.uri = some uri

variable {s : Store}

/-! ## Removing -/

theorem Tracked.find?_removeUri_iff (h : Tracked s) {uri name : String} {d : Definition} :
    (s.removeUri uri).1.find? name = some d ↔ s.find? name = some d ∧ d.uri ≠ some uri := by
  constructor
  · intro hd
    refine ⟨?_, h.uri_ne_of_find?_removeUri hd⟩
    rw [find?_removeUri] at hd
    split at hd
    · cases hd
    · exact hd
  · rintro ⟨hd, hne⟩
    refine find?_removeUri_of_kept hd ?_
    by_cases hlisted : name ∈ s.listing uri
    · -- listed, so located, and not in the document that goes
      right
      rcases Option.ne_none_iff_exists'.1 (h.located hlisted hd) with ⟨other, hother⟩
      refine ⟨other, hother, ?_⟩
      intro heq
      exact hne (heq ▸ hother)
    · exact Or.inl hlisted

theorem Tracked.removeUri (h : Tracked s) (uri : String) : Tracked (s.removeUri uri).1 where
  toConsistent := h.toConsistent.removeUri uri
  located := by
    intro name d uri' hlisted hd
    rw [listing_removeUri] at hlisted
    split at hlisted
    · cases hlisted
    · exact h.located hlisted (h.find?_removeUri_iff.1 hd).1

theorem outline?_eq_some_iff {name : String} {o : Definition} :
    s.outline? name = some o ↔ ∃ d, s.find? name = some d ∧ d.outline = o := by
  simp [outline?]

theorem outline?_removeUri_iff (h : Tracked s) {uri name : String} {o : Definition} :
    (s.removeUri uri).1.outline? name = some o ↔ s.outline? name = some o ∧ o.uri ≠ some uri := by
  simp only [outline?_eq_some_iff, h.find?_removeUri_iff]
  constructor
  · rintro ⟨d, ⟨hd, hne⟩, rfl⟩
    exact ⟨⟨d, hd, rfl⟩, by simpa using hne⟩
  · rintro ⟨⟨d, hd, rfl⟩, hne⟩
    exact ⟨d, ⟨hd, by simpa using hne⟩, rfl⟩

/-! ## Reindexing -/

theorem Tracked.update (h : Tracked s) {uri : String} {definitions : List Definition}
    (howned : OwnedBy uri definitions) : Tracked (s.update uri definitions) where
  toConsistent := h.toConsistent.update uri definitions
  located := by
    intro name d uri' hlisted hd
    rcases find?_update_eq_some hd with ⟨last, hlast, hout⟩ | ⟨hnone, hleft⟩
    · -- what was declared just now is located in the document
      have huri := howned last (lastNamed?_eq_some hlast).1
      rw [Definition.uri_eq_of_outline_eq hout, huri]
      exact Option.some_ne_none uri
    · -- A name that is not declared can only have been listed before.
      rw [listing_update] at hlisted
      rcases List.mem_append.1 hlisted with hbefore | hdeclared
      · exact (h.removeUri uri).located hbefore hleft
      · have hmem := (List.filter_sublist.map Definition.qualifiedName).subset hdeclared
        exact absurd hmem (lastNamed?_eq_none_iff.1 hnone)

theorem outline?_update_iff (h : Tracked s) {uri name : String} {definitions : List Definition}
    {o : Definition} :
    (s.update uri definitions).outline? name = some o ↔
      (∃ last, lastNamed? definitions name = some last ∧ last.outline = o) ∨
        (lastNamed? definitions name = none ∧ s.outline? name = some o ∧ o.uri ≠ some uri) := by
  rw [outline?_update, ← outline?_removeUri_iff h]
  cases hlast : lastNamed? definitions name with
  | none => simp [outline?]
  | some last => simp

/-- Definitions without a location in an empty store. -/
theorem tracked_addAll {definitions : List Definition}
    (hfree : ∀ d ∈ definitions, d.location = none) : Tracked (addAll {} definitions) where
  toConsistent := Consistent.empty.addAll hfree
  located := by
    intro name d uri hlisted
    -- adding lists nothing
    have hnone : (addAll {} definitions).listing uri = [] := by
      unfold listing
      rw [listings_addAll]
      rfl
    rw [hnone] at hlisted
    cases hlisted

end Store
end RubyIndex
