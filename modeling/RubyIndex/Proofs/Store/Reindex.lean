import RubyIndex.Proofs.Store.Consistency

/-!
# Reindexing a document

Reindexing replaces what a document declared and touches nothing else, whatever earlier documents
did to the store.

* `Store.Consistent.uri_ne_of_find?_removeUri`, nothing of a document is left by its removal;
* `Store.find?_removeUri_of_kept`, the removal leaves alone what it must;
* `Store.update_replaces_document` puts both together.
-/

namespace RubyIndex
namespace Store

/-- Nothing that is located in a document is left when it was removed. -/
theorem Consistent.uri_ne_of_find?_removeUri {s : Store} (h : Consistent s) {uri name : String}
    {d : Definition} (hd : (s.removeUri uri).1.find? name = some d) : d.uri ≠ some uri := by
  intro huri
  -- it would still be listed, but the list is gone
  have hmem := (h.removeUri uri).listed hd huri
  rw [listing_removeUri, if_pos rfl] at hmem
  cases hmem

/-- A definition stays when its name is not listed for the document that goes, or when it was
declared for another one since. -/
theorem find?_removeUri_of_kept {s : Store} {uri name : String} {d : Definition}
    (hd : s.find? name = some d)
    (hkept : name ∉ s.listing uri ∨ ∃ other, d.uri = some other ∧ other ≠ uri) :
    (s.removeUri uri).1.find? name = some d := by
  rw [find?_removeUri, if_neg, hd]
  rintro ⟨hlisted, howns⟩
  rcases hkept with hnot | ⟨other, hother, hne⟩
  · exact hnot hlisted
  · have heq : other = uri := by simpa [owns, hd, hother] using howns
    exact hne heq

/-- After a document was reindexed, what is located in it is exactly what it declares last under
each name, up to the resolved names; all it declares is found; and what it neither declares nor
owned is unchanged. -/
theorem update_replaces_document {s : Store} (h : Reachable s) (uri : String)
    (definitions : List Definition) :
    (∀ name,
      ((∃ d, (s.update uri definitions).find? name = some d ∧ d.uri = some uri) ↔
        ∃ last, lastNamed? definitions name = some last ∧ last.uri = some uri) ∧
      ∀ d, (s.update uri definitions).find? name = some d → d.uri = some uri →
        ∃ last, lastNamed? definitions name = some last ∧ d.outline = last.outline) ∧
    (∀ d ∈ definitions, ((s.update uri definitions).find? d.qualifiedName).isSome) ∧
    ∀ name d, s.find? name = some d → name ∉ definitions.map Definition.qualifiedName →
      (name ∉ s.listing uri ∨ ∃ other, d.uri = some other ∧ other ≠ uri) →
      (s.update uri definitions).find? name = some d := by
  -- What is located in the document afterwards cannot have been left by the removal.
  have hdeclared : ∀ name d, (s.update uri definitions).find? name = some d → d.uri = some uri →
      ∃ last, lastNamed? definitions name = some last ∧ d.outline = last.outline := by
    intro name d hd huri
    rcases find?_update_eq_some hd with hlast | ⟨_, hleft⟩
    · exact hlast
    · exact absurd huri (h.consistent.uri_ne_of_find?_removeUri hleft)
  refine ⟨?_, ?_, ?_⟩
  · intro name
    refine ⟨⟨?_, ?_⟩, hdeclared name⟩
    · rintro ⟨d, hd, huri⟩
      rcases hdeclared name d hd huri with ⟨last, hlast, hout⟩
      exact ⟨last, hlast, (Definition.uri_eq_of_outline_eq hout) ▸ huri⟩
    · rintro ⟨last, hlast, huri⟩
      rcases find?_update_of_declared hlast s uri with ⟨d, hd, hout⟩
      exact ⟨d, hd, (Definition.uri_eq_of_outline_eq hout).trans huri⟩
  · intro d hd
    have hmem : d.qualifiedName ∈ definitions.map Definition.qualifiedName :=
      List.mem_map.2 ⟨d, hd, rfl⟩
    rcases exists_lastNamed?_iff.2 hmem with ⟨last, hlast⟩
    rcases find?_update_of_declared hlast s uri with ⟨e, he, _⟩
    simp [he]
  · intro name d hd hnot hkept
    rw [find?_update_of_not_declared hnot]
    exact find?_removeUri_of_kept hd hkept

def barClass : Definition :=
  .ofClass
    ⟨⟨⟨"Bar", none, some ⟨⟨⟨1, 0⟩, ⟨1, 1⟩⟩, "file:///c.rb"⟩⟩, [], [], [], []⟩, none, none⟩

/-- A new version of the last document that declared `Foo`, with a class in place of it. -/
theorem sharedStore_update_replaces :
    Reachable sharedStore ∧
      (¬ ∃ d, (sharedStore.update "file:///c.rb" [barClass]).find? "Foo" = some d ∧
        d.uri = some "file:///c.rb") ∧
      (∃ d, (sharedStore.update "file:///c.rb" [barClass]).find? "Bar" = some d ∧
        d.uri = some "file:///c.rb") ∧
      ((sharedStore.update "file:///c.rb" [barClass]).find? "Bar").isSome ∧
      (sharedStore.update "file:///c.rb" [barClass]).find? "Generated" =
        some (.ofConstant ⟨"Generated", none, some ⟨⟨⟨1, 0⟩, ⟨1, 1⟩⟩, "file:///b.rb"⟩⟩) := by
  rcases update_replaces_document reachable_sharedStore "file:///c.rb" [barClass] with
    ⟨hnamed, hfound, hkept⟩
  refine ⟨reachable_sharedStore, ?_, ?_, ?_, ?_⟩
  · intro hfoo
    rcases (hnamed "Foo").1.1 hfoo with ⟨last, hlast, _⟩
    cases hlast
  · exact (hnamed "Bar").1.2 ⟨barClass, rfl, rfl⟩
  · exact hfound barClass List.mem_cons_self
  · exact hkept "Generated" _ (by decide) (by decide) (Or.inr ⟨"file:///b.rb", rfl, by decide⟩)

end Store
end RubyIndex
