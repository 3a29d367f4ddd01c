import RubyIndex.Proofs.Workspace.History

/-!
# Names that several sources declare

A store has one definition for a name, and forgets what it overwrites.  When the document that
declared a name last goes away or drops the name, the name goes away with it, also when the library
or another document still declares it.

* `Workspace.StillDeclared`, the library or a latest text declares a name;
* `Workspace.OwnerStands`, the document that declared a name last was left alone since;
* `Workspace.isSome_find?_run_iff_stands`, the names at the end of any run;
* `Workspace.stillDeclared_found_iff`, when a name that is still declared is found;
* `Workspace.not_stillDeclared_found`, a library name that is lost.
-/

namespace RubyIndex
namespace Workspace

/-- The library, or the latest text of some URI, declares a name. -/
def StillDeclared (read : Reader) (library : List Definition) (events : List Event)
    (name : String) : Prop :=
  name ∈ library.map Definition.qualifiedName ∨
    ∃ uri text, Latest events uri text ∧
      name ∈ (documentOf read uri text).definitions.map Definition.qualifiedName

/-- Some document declared a name last of all, and was not reindexed or deleted since. -/
def OwnerStands (read : Reader) (events : List Event) (name : String) : Prop :=
  ∃ uri, Unrevoked (fun e => e.reindexes? = some uri ∧ e.Declares read name)
    (fun e => e.reindexes? = some uri ∨ e.Declares read name) events

section Names

variable {read : Reader} {library : List Definition} {events : List Event} {name : String}

/-- An event that declares a name has a last definition for it, which is in the document that the
event is about. -/
theorem Event.Declares.exists_declared {e : Event} {uri : String}
    (hname : e.Declares read name) (huri : e.reindexes? = some uri) :
    ∃ o, e.Declared read name o ∧ o.uri = some uri := by
  rcases exists_lastNamed?_iff.2 hname with ⟨last, hlast⟩
  have howned : last.uri = some uri :=
    Event.ownedBy_definitions huri last (lastNamed?_eq_some hlast).1
  exact ⟨last.outline, ⟨last, hlast, rfl⟩, by simpa using howned⟩

theorem exists_unrevoked_declared_iff :
    (∃ o, Unrevoked (Event.Declared read name o) (Event.Ends read name o) events) ↔
      OwnerStands read events name := by
  constructor
  · rintro ⟨o, before, event, after, heq, hdeclared, hafter⟩
    rcases hdeclared.exists_source with ⟨uri, text, hsource, huri⟩
    have hreindexes := Event.reindexes?_of_indexes? hsource
    refine ⟨uri, before, event, after, heq, ⟨hreindexes, hdeclared.declares⟩, ?_⟩
    rintro e he (hreindexed | hdeclares)
    · exact hafter e he (Or.inr ⟨uri, hreindexed, huri⟩)
    · exact hafter e he (Or.inl hdeclares)
  · rintro ⟨uri, before, event, after, heq, ⟨hreindexes, hdeclares⟩, hafter⟩
    rcases hdeclares.exists_declared hreindexes with ⟨o, hdeclared, huri⟩
    refine ⟨o, before, event, after, heq, hdeclared, ?_⟩
    rintro e he (hagain | ⟨uri', hreindexed, huri'⟩)
    · exact hafter e he (Or.inr hagain)
    · -- only its own document can take the definition away
      have hsame : uri = uri' := Option.some.inj (huri.symm.trans huri')
      exact hafter e he (Or.inl (hsame ▸ hreindexed))

/-- A name is found when its last document stands; failing that, only a library name that no
document ever declared is. -/
theorem isSome_find?_run_iff_stands (hfree : ∀ d ∈ library, d.location = none) :
    ((run read library events).store.find? name).isSome ↔
      OwnerStands read events name ∨
        ((∀ e ∈ events, ¬ e.Declares read name) ∧
          name ∈ library.map Definition.qualifiedName) := by
  -- The definition itself does not matter, so its outline will do.
  have hfound : ((run read library events).store.find? name).isSome ↔
      ∃ o, (run read library events).store.outline? name = some o := by
    simp [Store.outline?_eq_some_iff, Option.isSome_iff_exists]
  rw [hfound, ← exists_unrevoked_declared_iff, ← exists_lastNamed?_iff]
  simp only [outline?_run_iff hfree]
  constructor
  · rintro ⟨o, hunrevoked | ⟨hnever, last, hlast, _⟩⟩
    · exact Or.inl ⟨o, hunrevoked⟩
    · exact Or.inr ⟨hnever, last, hlast⟩
  · rintro (⟨o, hunrevoked⟩ | ⟨hnever, last, hlast⟩)
    · exact ⟨o, Or.inl hunrevoked⟩
    · exact ⟨last.outline, Or.inr ⟨hnever, last, hlast, rfl⟩⟩

/-- A name that no document ever declared is still declared only by the library. -/
theorem StillDeclared.mem_library (hdeclared : StillDeclared read library events name)
    (hnever : ∀ e ∈ events, ¬ e.Declares read name) :
    name ∈ library.map Definition.qualifiedName := by
  rcases hdeclared with hlibrary | ⟨uri, text, hlatest, hname⟩
  · exact hlibrary
  · -- the latest text of a document was indexed by an event, which declared the name
    rcases hlatest.exists_event with ⟨e, he, hsource⟩
    exact absurd ((Event.declares_iff_of_indexes? hsource).2 hname) (hnever e he)

/-- A name that is still declared is found exactly when no document ever declared it, or the one
that declared it last was not reindexed or deleted since. -/
theorem stillDeclared_found_iff (hfree : ∀ d ∈ library, d.location = none)
    (hdeclared : StillDeclared read library events name) :
    ((run read library events).store.find? name).isSome ↔
      (∀ e ∈ events, ¬ e.Declares read name) ∨ OwnerStands read events name := by
  rw [isSome_find?_run_iff_stands hfree]
  constructor
  · rintro (hstands | ⟨hnever, _⟩)
    · exact Or.inr hstands
    · exact Or.inl hnever
  · rintro (hnever | hstands)
    · exact Or.inr ⟨hnever, hdeclared.mem_library hnever⟩
    · exact Or.inl hstands

end Names

/-- A document reopens a library class and stays; another one comes and goes. -/
theorem reopened_string_found :
    ((run shortReader (shortLibrary "String")
      [ .opened "file:///a.rb" "class String\nend\n", .opened "file:///b.rb" "class Bar\nend\n",
        .deleted "file:///b.rb" ]).store.find? "String").isSome := by
  refine (stillDeclared_found_iff (by decide) (Or.inl (by decide))).2 (Or.inr ?_)
  refine ⟨"file:///a.rb", [], _, _, rfl, ⟨rfl, ?_⟩, ?_⟩
  · unfold Event.Declares
    decide +kernel
  · unfold Event.Declares
    decide +kernel

/-- Deleting a document that reopened a library class loses the class. -/
theorem not_stillDeclared_found :
    ¬ ∀ (read : Reader) (library : List Definition) (events : List Event) (name : String),
      (∀ d ∈ library, d.location = none) → StillDeclared read library events name →
        ((run read library events).store.find? name).isSome := by
  intro hfound
  -- The document takes over the entry of the library, and the entry goes with the document.
  have hlost : ((run shortReader (shortLibrary "String")
      [ .opened "file:///a.rb" "class String\nend\n",
        .deleted "file:///a.rb" ]).store.find? "String").isSome = false := by
    decide +kernel
  have hstring := hfound shortReader (shortLibrary "String")
    [ .opened "file:///a.rb" "class String\nend\n", .deleted "file:///a.rb" ] "String"
    (by decide) (Or.inl (by decide))
  rw [hlost] at hstring
  cases hstring

/-- A name of one document is lost with another document that took it over. -/
example :
    (run shortReader []
      [ .opened "file:///a.rb" "class Foo\nend\n", .opened "file:///b.rb" "class Foo\nend\n",
        .deleted "file:///b.rb" ]).store.find? "Foo" = none := by
  decide +kernel

end Workspace
end RubyIndex
