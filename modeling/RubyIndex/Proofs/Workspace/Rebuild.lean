import RubyIndex.Proofs.Workspace.History

/-!
# A live workspace equals a fresh one

Reindexing document by document gives what indexing the latest texts from scratch gives, as long as
no name is declared by two sources.

* `Workspace.SingleSource`, no name is declared for two URIs, or for one and by the library;
* `Workspace.outline?_run_iff_latest`, what stands under a name is what the library or a latest
  text declares last under it;
* `Workspace.run_eq_fresh`, names, definitions and open documents at the end of a run.
-/

namespace RubyIndex
namespace Workspace

/-- Texts that are indexed for different URIs, at whatever time, declare different names, and none
of the library. -/
structure SingleSource (read : Reader) (library : List Definition) (events : List Event) :
    Prop where
  documents : ∀ e ∈ events, ∀ e' ∈ events, e.reindexes? ≠ e'.reindexes? →
    ∀ name, e.Declares read name → ¬ e'.Declares read name
  builtins : ∀ e ∈ events, ∀ name ∈ library.map Definition.qualifiedName, ¬ e.Declares read name

section SingleSource

variable {read : Reader} {library : List Definition} {events : List Event}

/-- With a single source for each name, no other document can end what a latest text declares. -/
theorem unrevoked_declared_iff (hsingle : SingleSource read library events) (name : String)
    (o : Definition) :
    Unrevoked (Event.Declared read name o) (Event.Ends read name o) events ↔
      ∃ uri text last, Latest events uri text ∧
        lastNamed? (documentOf read uri text).definitions name = some last ∧ last.outline = o := by
  constructor
  · rintro ⟨before, event, after, heq, hdeclared, hafter⟩
    rcases hdeclared.exists_source with ⟨uri, text, hsource, huri⟩
    rcases hdeclared with ⟨last, hlast, hout⟩
    rw [Event.definitions_of_indexes? read hsource] at hlast
    refine ⟨uri, text, last, ⟨before, event, after, heq, hsource, ?_⟩, hlast, hout⟩
    intro e he hreindexes
    exact hafter e he (Or.inr ⟨uri, hreindexes, huri⟩)
  · rintro ⟨uri, text, last, ⟨before, event, after, heq, hsource, hafter⟩, hlast, hout⟩
    rw [← Event.definitions_of_indexes? read hsource] at hlast
    have hdeclared : event.Declared read name o := ⟨last, hlast, hout⟩
    have huri : o.uri = some uri := by
      rcases hdeclared.exists_source with ⟨uri', text', hsource', huri⟩
      rw [hsource] at hsource'
      cases hsource'
      exact huri
    -- Nothing after the event can end what it declared.
    have hevent : event ∈ events := by simp [heq]
    refine ⟨before, event, after, heq, hdeclared, ?_⟩
    rintro e he (hdeclares | ⟨uri', hreindexes, huri'⟩)
    · -- a later event that declares the name is about the same URI
      have hmem : e ∈ events := by simp [heq, he]
      have hne : event.reindexes? ≠ e.reindexes? := by
        intro hsame
        rw [Event.reindexes?_of_indexes? hsource] at hsame
        exact hafter e he hsame.symm
      exact hsingle.documents event hevent e hmem hne name hdeclared.declares hdeclares
    · rw [huri] at huri'
      cases huri'
      exact hafter e he hreindexes

theorem outline?_run_iff_latest (hfree : ∀ d ∈ library, d.location = none)
    (hsingle : SingleSource read library events) (name : String) (o : Definition) :
    (run read library events).store.outline? name = some o ↔
      (∃ last, lastNamed? library name = some last ∧ last.outline = o) ∨
        ∃ uri text last, Latest events uri text ∧
          lastNamed? (documentOf read uri text).definitions name = some last ∧
          last.outline = o := by
  rw [outline?_run_iff hfree, unrevoked_declared_iff hsingle]
  constructor
  · rintro (hlatest | ⟨_, hlast⟩)
    · exact Or.inr hlatest
    · exact Or.inl hlast
  · rintro (⟨last, hlast, hout⟩ | hlatest)
    · -- a library name is the library's alone
      have hname := exists_lastNamed?_iff.1 ⟨last, hlast⟩
      refine Or.inr ⟨?_, last, hlast, hout⟩
      intro e he
      exact hsingle.builtins e he name hname
    · exact Or.inl hlatest

/-! ## Names and definitions at the end of a run -/

theorem find?_run_eq_some (hfree : ∀ d ∈ library, d.location = none)
    (hsingle : SingleSource read library events) {name : String} {d : Definition}
    (hd : (run read library events).store.find? name = some d) :
    (∃ last, lastNamed? library name = some last ∧ d.outline = last.outline) ∨
      ∃ uri text last, Latest events uri text ∧
        lastNamed? (documentOf read uri text).definitions name = some last ∧
        d.outline = last.outline := by
  have hout : (run read library events).store.outline? name = some d.outline :=
    Store.outline?_eq_some_iff.2 ⟨d, hd, rfl⟩
  rcases (outline?_run_iff_latest hfree hsingle name d.outline).1 hout with
    ⟨last, hlast, heq⟩ | ⟨uri, text, last, hlatest, hlast, heq⟩
  · exact Or.inl ⟨last, hlast, heq.symm⟩
  · exact Or.inr ⟨uri, text, last, hlatest, hlast, heq.symm⟩

theorem isSome_find?_run_iff (hfree : ∀ d ∈ library, d.location = none)
    (hsingle : SingleSource read library events) (name : String) :
    ((run read library events).store.find? name).isSome ↔
      name ∈ library.map Definition.qualifiedName ∨
        ∃ uri text, Latest events uri text ∧
          name ∈ (documentOf read uri text).definitions.map Definition.qualifiedName := by
  simp only [← exists_lastNamed?_iff]
  constructor
  · intro hsome
    rcases Option.isSome_iff_exists.1 hsome with ⟨d, hd⟩
    rcases find?_run_eq_some hfree hsingle hd with
      ⟨last, hlast, _⟩ | ⟨uri, text, last, hlatest, hlast, _⟩
    · exact Or.inl ⟨last, hlast⟩
    · exact Or.inr ⟨uri, text, hlatest, last, hlast⟩
  · intro hdeclared
    have hexists : ∃ o, (run read library events).store.outline? name = some o := by
      rcases hdeclared with ⟨last, hlast⟩ | ⟨uri, text, hlatest, last, hlast⟩
      · refine ⟨last.outline, (outline?_run_iff_latest hfree hsingle name _).2 ?_⟩
        exact Or.inl ⟨last, hlast, rfl⟩
      · refine ⟨last.outline, (outline?_run_iff_latest hfree hsingle name _).2 ?_⟩
        exact Or.inr ⟨uri, text, last, hlatest, hlast, rfl⟩
    rcases hexists with ⟨o, ho⟩
    rcases Store.outline?_eq_some_iff.1 ho with ⟨d, hd, _⟩
    simp [hd]

/-! ## Fresh runs -/

/-- A run that indexes latest texts of another one only has single sources too. -/
theorem SingleSource.of_latest (hsingle : SingleSource read library events) {fresh : List Event}
    (hfresh : ∀ e ∈ fresh, ∀ uri text, e.indexes? = some (uri, text) → Latest events uri text) :
    SingleSource read library fresh := by
  -- Each event of the fresh run that declares something repeats one of the other run.
  have hrepeats : ∀ e ∈ fresh, ∀ name, e.Declares read name →
      ∃ e' ∈ events, e'.reindexes? = e.reindexes? ∧ ∀ name, e.Declares read name →
        e'.Declares read name := by
    intro e he name hname
    rcases List.mem_map.1 hname with ⟨d, hd, _⟩
    rcases Event.indexes?_of_mem_definitions hd with ⟨uri, text, hsource⟩
    rcases (hfresh e he uri text hsource).exists_event with ⟨e', he', hsource'⟩
    refine ⟨e', he', ?_, ?_⟩
    · rw [Event.reindexes?_of_indexes? hsource, Event.reindexes?_of_indexes? hsource']
    · intro name' hname'
      rw [Event.declares_iff_of_indexes? hsource] at hname'
      rwa [Event.declares_iff_of_indexes? hsource']
  refine ⟨?_, ?_⟩
  · intro e₁ he₁ e₂ he₂ hne name hname₁ hname₂
    rcases hrepeats e₁ he₁ name hname₁ with ⟨e₁', he₁', huri₁, hrepeat₁⟩
    rcases hrepeats e₂ he₂ name hname₂ with ⟨e₂', he₂', huri₂, hrepeat₂⟩
    refine hsingle.documents e₁' he₁' e₂' he₂' ?_ name (hrepeat₁ name hname₁)
      (hrepeat₂ name hname₂)
    rwa [huri₁, huri₂]
  · intro e he name hlibrary hname
    rcases hrepeats e he name hname with ⟨e', he', _, hrepeat⟩
    exact hsingle.builtins e' he' name hlibrary (hrepeat name hname)

/-- Runs with the same latest texts agree on every name. -/
theorem outline?_run_congr (hfree : ∀ d ∈ library, d.location = none)
    (hsingle : SingleSource read library events) {fresh : List Event}
    (hsingle' : SingleSource read library fresh)
    (hlatest : ∀ uri text, Latest fresh uri text ↔ Latest events uri text) (name : String) :
    (run read library fresh).store.outline? name =
      (run read library events).store.outline? name := by
  apply Option.ext
  intro o
  rw [outline?_run_iff_latest hfree hsingle, outline?_run_iff_latest hfree hsingle']
  simp only [hlatest]

end SingleSource

/-- At the end of a run, a name is found exactly when the library or the latest text of some URI
declares it; what is found is the last definition of the name there, up to the resolved names; the
open documents are those not closed or deleted since; and another run that only indexes the latest
texts, once more or again and in any order, gives the same. -/
theorem run_eq_fresh {read : Reader} {library : List Definition} {events : List Event}
    (hfree : ∀ d ∈ library, d.location = none) (hsingle : SingleSource read library events) :
    (∀ name, ((run read library events).store.find? name).isSome ↔
      name ∈ library.map Definition.qualifiedName ∨
        ∃ uri text, Latest events uri text ∧
          name ∈ (documentOf read uri text).definitions.map Definition.qualifiedName) ∧
    (∀ name d, (run read library events).store.find? name = some d →
      (∃ last, lastNamed? library name = some last ∧ d.outline = last.outline) ∨
        ∃ uri text last, Latest events uri text ∧
          lastNamed? (documentOf read uri text).definitions name = some last ∧
          d.outline = last.outline) ∧
    (∀ uri d, (run read library events).document? uri = some d ↔
      ∃ text, Shown events uri text ∧ d = documentOf read uri text) ∧
    ∀ fresh, (∀ uri text, Latest fresh uri text ↔ Latest events uri text) →
      (∀ e ∈ fresh, ∀ uri text, e.indexes? = some (uri, text) → Latest events uri text) →
      ∀ name, (run read library fresh).store.outline? name =
        (run read library events).store.outline? name := by
  refine ⟨isSome_find?_run_iff hfree hsingle, ?_, document?_run_iff read library events, ?_⟩
  · intro name d hd
    exact find?_run_eq_some hfree hsingle hd
  · intro fresh hlatest hfresh name
    exact outline?_run_congr hfree hsingle (hsingle.of_latest hfresh) hlatest name

/-- A document is opened, broken, closed and opened again with another text, while another one is
indexed and a third one, never seen, is deleted. -/
def edits : List Event :=
  [ .opened "file:///a.rb" "class Foo\nend\n", .changed "file:///a.rb" "class",
    .closed "file:///a.rb", .deleted "file:///c.rb",
    .indexed "file:///b.rb" "class String\nend\n", .opened "file:///a.rb" "class Bar\nend\n" ]

theorem singleSource_edits : SingleSource shortReader (shortLibrary "Object") edits where
  documents := by
    unfold Event.Declares
    decide +kernel
  builtins := by
    unfold Event.Declares
    decide +kernel

theorem run_edits_eq_fresh :
    ((run shortReader (shortLibrary "Object") edits).store.find? "Object").isSome ∧
      ((run shortReader (shortLibrary "Object") edits).store.find? "Bar").isSome ∧
      (run shortReader (shortLibrary "Object") edits).document? "file:///a.rb" =
        some (documentOf shortReader "file:///a.rb" "class Bar\nend\n") := by
  rcases run_eq_fresh (by decide) singleSource_edits with ⟨hfound, _, hopen, _⟩
  refine ⟨(hfound "Object").2 (Or.inl (by decide)), (hfound "Bar").2 (Or.inr ?_),
    (hopen "file:///a.rb" _).2 ⟨_, ?_, rfl⟩⟩
  · refine ⟨"file:///a.rb", "class Bar\nend\n", ?_, by decide +kernel⟩
    exact ⟨edits.take 5, .opened "file:///a.rb" "class Bar\nend\n", [], rfl, rfl, by simp⟩
  · exact ⟨edits.take 5, .opened "file:///a.rb" "class Bar\nend\n", [], rfl, rfl, by simp⟩

end Workspace
end RubyIndex
