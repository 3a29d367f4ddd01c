import Mathlib.Data.List.Induction
import RubyIndex.Workspace
import RubyIndex.Proofs.Declaration.Located
import RubyIndex.Proofs.Store.Ownership

/-!
# Runs of a workspace

A run adds the built-in library to an empty workspace and then takes events one after the other.
What the workspace holds at the end is said by looking back at the events.  How a text is read as a
concrete tree is left open: whatever tree the texts are read as, the same holds.

* `Workspace.Event`, `Workspace.run`;
* `Workspace.Unrevoked`, an event of some sort after which none of another sort came;
* `Workspace.Latest`, the text that is indexed for a URI at the end, and `Workspace.Shown`, the
  text that is open;
* `Workspace.document?_run_iff`, the open documents at the end of a run;
* `Workspace.outline?_run_iff`, what stands under a name at the end of a run.
-/

namespace RubyIndex
namespace Workspace

/-! ## Events -/

inductive Event
  | opened (uri text : String)
  | changed (uri text : String)
  | indexed (uri text : String)
  | closed (uri : String)
  | deleted (uri : String)
  deriving DecidableEq, Repr

/-- How a text is read as a concrete tree; one with syntax errors is not. -/
abbrev Reader := String → Option Concrete.Node

def documentOf (read : Reader) (uri text : String) : Document :=
  .ofSource uri text (read text)

namespace Event

/-- The text an event indexes, and the URI it is indexed for. -/
def indexes? : Event → Option (String × String)
  | opened uri text | changed uri text | indexed uri text => some (uri, text)
  | closed _ | deleted _ => none

/-- The URI whose declarations an event replaces or drops. -/
def reindexes? : Event → Option String
  | opened uri _ | changed uri _ | indexed uri _ | deleted uri => some uri
  | closed _ => none

/-- The text an event opens, and the URI it is opened for. -/
def opens? : Event → Option (String × String)
  | opened uri text | changed uri text => some (uri, text)
  | indexed _ _ | closed _ | deleted _ => none

/-- The URI whose open document an event replaces or drops. -/
def reopens? : Event → Option String
  | opened uri _ | changed uri _ | closed uri | deleted uri => some uri
  | indexed _ _ => none

/-- What the text that an event indexes declares. -/
def definitions (read : Reader) (e : Event) : List Definition :=
  e.indexes?.elim [] fun source => (documentOf read source.1 source.2).definitions

def Declares (read : Reader) (e : Event) (name : String) : Prop :=
  name ∈ (e.definitions read).map Definition.qualifiedName

theorem reindexes?_of_indexes? {e : Event} {uri text : String}
    (h : e.indexes? = some (uri, text)) : e.reindexes? = some uri := by
  cases e <;> simp_all [indexes?, reindexes?]

theorem definitions_of_indexes? {e : Event} {uri text : String} (read : Reader)
    (h : e.indexes? = some (uri, text)) :
    e.definitions read = (documentOf read uri text).definitions := by
  simp [definitions, h]

theorem declares_iff_of_indexes? {read : Reader} {e : Event} {uri text name : String}
    (h : e.indexes? = some (uri, text)) :
    e.Declares read name ↔
      name ∈ (documentOf read uri text).definitions.map Definition.qualifiedName := by
  unfold Declares
  rw [definitions_of_indexes? read h]

theorem indexes?_of_mem_definitions {read : Reader} {e : Event} {d : Definition}
    (h : d ∈ e.definitions read) : ∃ uri text, e.indexes? = some (uri, text) := by
  cases hsource : e.indexes? with
  | none => simp [definitions, hsource] at h
  | some source => exact ⟨source.1, source.2, rfl⟩

/-- An event indexes what is located in its own document. -/
theorem ownedBy_definitions {read : Reader} {e : Event} {uri : String}
    (h : e.reindexes? = some uri) : Store.OwnedBy uri (e.definitions read) := by
  intro d hd
  rcases indexes?_of_mem_definitions hd with ⟨uri', text, hsource⟩
  -- an event indexes the document whose declarations it replaces
  have heq : some uri' = some uri := (reindexes?_of_indexes? hsource).symm.trans h
  cases heq
  rw [definitions_of_indexes? read hsource] at hd
  exact Document.uri_of_mem_definitions hd

/-- An event that reindexes nothing declares nothing. -/
theorem not_declares_of_reindexes? {read : Reader} {e : Event} (h : e.reindexes? = none)
    (name : String) : ¬ e.Declares read name := by
  intro hname
  rcases List.mem_map.1 hname with ⟨d, hd, _⟩
  rcases indexes?_of_mem_definitions hd with ⟨uri, text, hsource⟩
  have hsome := reindexes?_of_indexes? hsource
  rw [h] at hsome
  cases hsome

theorem declares_iff {read : Reader} {e : Event} {name : String} :
    e.Declares read name ↔ lastNamed? (e.definitions read) name ≠ none := by
  rw [ne_eq, lastNamed?_eq_none_iff, not_not]
  rfl

end Event

/-! ## Runs -/

def step (read : Reader) (w : Workspace) : Event → Workspace
  | .opened uri text | .changed uri text => w.openDocument (documentOf read uri text)
  | .indexed uri text => w.index (documentOf read uri text)
  | .closed uri => w.close uri
  | .deleted uri => w.delete uri

/-- The workspace with a built-in library, after some events. -/
def run (read : Reader) (library : List Definition) (events : List Event) : Workspace :=
  events.foldl (step read) (seed {} library)

theorem run_concat (read : Reader) (library : List Definition) (events : List Event) (e : Event) :
    run read library (events ++ [e]) = step read (run read library events) e := by
  simp [run]

/-- To the store, a deletion is a new version of the document that declares nothing. -/
theorem store_step (read : Reader) (w : Workspace) (e : Event) :
    (step read w e).store =
      e.reindexes?.elim w.store fun uri => w.store.update uri (e.definitions read) := by
  cases e <;> rfl

theorem document?_step (read : Reader) (w : Workspace) (e : Event) (uri : String) :
    (step read w e).document? uri =
      if e.reopens? = some uri then e.opens?.map fun source => documentOf read source.1 source.2
      else w.document? uri := by
  cases e with
  | opened uri' text | changed uri' text =>
      refine (Assoc.find?_set uri' uri _ w.documents).trans ?_
      simp [Event.reopens?, Event.opens?, document?, eq_comm (a := uri)]
  | indexed uri' text => rfl
  | closed uri' | deleted uri' =>
      refine (Assoc.find?_erase uri' uri w.documents).trans ?_
      simp [Event.reopens?, Event.opens?, document?, eq_comm (a := uri)]

/-! ## Looking back -/

/-- There was an event of one sort, and none of another sort came after it. -/
def Unrevoked (p q : Event → Prop) (events : List Event) : Prop :=
  ∃ before event after, events = before ++ event :: after ∧ p event ∧ ∀ e ∈ after, ¬ q e

theorem not_unrevoked_nil {p q : Event → Prop} : ¬ Unrevoked p q [] := by
  rintro ⟨before, event, after, heq, _⟩
  simp at heq

theorem unrevoked_concat {p q : Event → Prop} {events : List Event} {e : Event} :
    Unrevoked p q (events ++ [e]) ↔ p e ∨ (¬ q e ∧ Unrevoked p q events) := by
  constructor
  · rintro ⟨before, event, after, heq, hp, hq⟩
    rcases List.eq_nil_or_concat after with rfl | ⟨after', last, rfl⟩
    · -- nothing came after it, so it is the new event
      have hlast := List.append_inj' heq rfl
      left
      simpa [← (List.cons.inj hlast.2).1] using hp
    · -- it stands further back, and the new event came after it
      have heq' : events ++ [e] = (before ++ event :: after') ++ [last] := by simpa using heq
      have hlast := List.append_inj' heq' rfl
      have he : e = last := (List.cons.inj hlast.2).1
      right
      refine ⟨he ▸ hq last (by simp), before, event, after', hlast.1, hp, ?_⟩
      intro e' he'
      exact hq e' (by simp [he'])
  · rintro (hp | ⟨hq, before, event, after, rfl, hp, hafter⟩)
    · exact ⟨events, e, [], by simp, hp, by simp⟩
    · refine ⟨before, event, after ++ [e], by simp, hp, ?_⟩
      intro e' he'
      rcases List.mem_append.1 he' with h | h
      · exact hafter e' h
      · cases List.mem_singleton.1 h
        exact hq

/-- The text that the last event about the declarations of a URI indexed. -/
def Latest (events : List Event) (uri text : String) : Prop :=
  Unrevoked (fun e => e.indexes? = some (uri, text)) (fun e => e.reindexes? = some uri) events

/-- The latest text of a URI was indexed by some event. -/
theorem Latest.exists_event {events : List Event} {uri text : String} (h : Latest events uri text) :
    ∃ e ∈ events, e.indexes? = some (uri, text) := by
  rcases h with ⟨before, event, after, rfl, hsource, _⟩
  exact ⟨event, by simp, hsource⟩

/-- The text that the last event about the open document of a URI opened. -/
def Shown (events : List Event) (uri text : String) : Prop :=
  Unrevoked (fun e => e.opens? = some (uri, text)) (fun e => e.reopens? = some uri) events

/-! ## Open documents -/

theorem reopens?_of_opens? {e : Event} {uri text : String} (h : e.opens? = some (uri, text)) :
    e.reopens? = some uri := by
  cases e <;> simp_all [Event.opens?, Event.reopens?]

/-- A document is open exactly when it was not closed or deleted since, with its last text. -/
theorem document?_run_iff (read : Reader) (library : List Definition) (events : List Event)
    (uri : String) (d : Document) :
    (run read library events).document? uri = some d ↔
      ∃ text, Shown events uri text ∧ d = documentOf read uri text := by
  induction events using List.reverseRecOn with
  | nil =>
      constructor
      · intro h
        simp [run, seed, document?, Assoc.find?] at h
      · rintro ⟨text, hshown, _⟩
        exact absurd hshown not_unrevoked_nil
  | append_singleton events e ih =>
      rw [run_concat, document?_step]
      simp only [Shown, unrevoked_concat]
      by_cases h : e.reopens? = some uri
      · -- the event decides alone: it opens a text, or it leaves nothing open
        simp only [h, if_true, not_true_eq_false, false_and, or_false]
        constructor
        · intro hd
          rcases Option.map_eq_some_iff.1 hd with ⟨⟨uri', text⟩, hopens, rfl⟩
          have heq : some uri' = some uri := (reopens?_of_opens? hopens).symm.trans h
          cases heq
          exact ⟨text, hopens, rfl⟩
        · rintro ⟨text, hopens, rfl⟩
          simp [hopens]
      · -- the event is about another document
        have hopens : ∀ text, e.opens? ≠ some (uri, text) := by
          intro text hopens
          exact h (reopens?_of_opens? hopens)
        simp only [h, if_false, hopens, false_or, not_false_eq_true, true_and]
        exact ih

/-! ## Definitions -/

theorem tracked_run {library : List Definition} (hfree : ∀ d ∈ library, d.location = none)
    (read : Reader) (events : List Event) : (run read library events).store.Tracked := by
  induction events using List.reverseRecOn with
  | nil => exact Store.tracked_addAll hfree
  | append_singleton events e ih =>
      rw [run_concat, store_step]
      cases h : e.reindexes? with
      | none => exact ih
      | some uri => exact ih.update (Event.ownedBy_definitions h)

/-- The last thing that an event declares under a name is `o`. -/
def Event.Declared (read : Reader) (name : String) (o : Definition) (e : Event) : Prop :=
  ∃ last, lastNamed? (e.definitions read) name = some last ∧ last.outline = o

theorem Event.Declared.declares {read : Reader} {name : String} {o : Definition} {e : Event}
    (h : e.Declared read name o) : e.Declares read name := by
  rcases h with ⟨last, hlast, _⟩
  rw [Event.declares_iff, hlast]
  exact Option.some_ne_none last

/-- What an event declared is located in the document it indexed. -/
theorem Event.Declared.exists_source {read : Reader} {name : String} {o : Definition} {e : Event}
    (h : e.Declared read name o) :
    ∃ uri text, e.indexes? = some (uri, text) ∧ o.uri = some uri := by
  rcases h with ⟨last, hlast, rfl⟩
  have hmem := (lastNamed?_eq_some hlast).1
  rcases Event.indexes?_of_mem_definitions hmem with ⟨uri, text, hsource⟩
  have huri := Event.ownedBy_definitions (Event.reindexes?_of_indexes? hsource) last hmem
  exact ⟨uri, text, hsource, by simpa using huri⟩

/-- An event ends what was declared under a name: it declares the name anew, or it reindexes or
deletes the document in which `o` is located. -/
def Event.Ends (read : Reader) (name : String) (o : Definition) (e : Event) : Prop :=
  e.Declares read name ∨ ∃ uri, e.reindexes? = some uri ∧ o.uri = some uri

/-- What stands under a name comes from the last event that declared the name, unless the document
of that event was reindexed or deleted since.  It comes from the library when no event ever
declared the name. -/
theorem outline?_run_iff {library : List Definition} (hfree : ∀ d ∈ library, d.location = none)
    (read : Reader) (events : List Event) (name : String) (o : Definition) :
    (run read library events).store.outline? name = some o ↔
      Unrevoked (Event.Declared read name o) (Event.Ends read name o) events ∨
        ((∀ e ∈ events, ¬ e.Declares read name) ∧
          ∃ last, lastNamed? library name = some last ∧ last.outline = o) := by
  induction events using List.reverseRecOn with
  | nil =>
      have hseed : (run read library []).store.find? name = lastNamed? library name := by
        have hadd := Store.find?_addAll {} library name
        rwa [show ({} : Store).find? name = none from rfl, Option.or_none] at hadd
      rw [Store.outline?_eq_some_iff, hseed]
      simp [not_unrevoked_nil]
  | append_singleton events e ih =>
      have hstore := tracked_run hfree read events
      -- What comes from the library has no location, so no event drops it.
      have hlibrary : (∃ last, lastNamed? library name = some last ∧ last.outline = o) →
          o.uri = none := by
        rintro ⟨last, hlast, rfl⟩
        have hlocation := hfree last (lastNamed?_eq_some hlast).1
        simpa using Definition.uri_eq_none_of_location hlocation
      have hforall : (∀ e' ∈ events ++ [e], ¬ e'.Declares read name) ↔
          (∀ e' ∈ events, ¬ e'.Declares read name) ∧ ¬ e.Declares read name := by
        simp [or_imp, forall_and]
      -- The event is one step on both sides: it reindexes nothing, or one document.
      rw [run_concat, store_step, unrevoked_concat, hforall]
      cases h : e.reindexes? with
      | none =>
          -- nothing is declared, and no document is reindexed
          have hnot : ¬ e.Declares read name := Event.not_declares_of_reindexes? h name
          have hends : ¬ e.Ends read name o := by
            rintro (hdeclares | ⟨uri, huri, _⟩)
            · exact hnot hdeclares
            · rw [h] at huri
              cases huri
          have hdeclared : ¬ e.Declared read name o := fun hd => hnot hd.declares
          rw [Option.elim_none, ih]
          simp [hnot, hends, hdeclared]
      | some uri =>
          rw [Option.elim_some, Store.outline?_update_iff hstore, ih]
          have hends : e.Ends read name o ↔ e.Declares read name ∨ o.uri = some uri := by
            simp [Event.Ends, h]
          have hnone : lastNamed? (e.definitions read) name = none ↔ ¬ e.Declares read name := by
            rw [Event.declares_iff, not_not]
          rw [hends, hnone]
          constructor
          · rintro (hdeclared | ⟨hnot, hunrevoked | ⟨hnever, hlast⟩, huri⟩)
            · exact Or.inl (Or.inl hdeclared)
            · exact Or.inl (Or.inr ⟨not_or.2 ⟨hnot, huri⟩, hunrevoked⟩)
            · exact Or.inr ⟨⟨hnever, hnot⟩, hlast⟩
          · rintro ((hdeclared | ⟨hkept, hunrevoked⟩) | ⟨⟨hnever, hnot⟩, hlast⟩)
            · exact Or.inl hdeclared
            · exact Or.inr ⟨(not_or.1 hkept).1, Or.inl hunrevoked, (not_or.1 hkept).2⟩
            · refine Or.inr ⟨hnot, Or.inr ⟨hnever, hlast⟩, ?_⟩
              rw [hlibrary hlast]
              exact (Option.some_ne_none uri).symm

/-! ## Short texts -/

/-- The concrete tree of an empty class, the `class` and the `end` on lines of their own, whose
name has `n` letters. -/
def classTree (n : Nat) : Concrete.Node :=
  let keyword : Concrete.Node := ⟨2, .classNode, false, 0, 5, none, []⟩
  let name : Concrete.Node := ⟨3, .constant, true, 6, 6 + n, some .name, []⟩
  let stop : Concrete.Node := ⟨4, .other, false, 7 + n, 10 + n, none, []⟩
  let construct : Concrete.Node := ⟨1, .classNode, true, 0, 10 + n, none, [keyword, name, stop]⟩
  ⟨0, .other, true, 0, 11 + n, none, [construct]⟩

/-- Reads three texts; all others count as broken. -/
def shortReader : Reader := fun text =>
  if text = "class Foo\nend\n" ∨ text = "class Bar\nend\n" then some (classTree 3)
  else if text = "class String\nend\n" then some (classTree 6)
  else none

/-- A library of one constant. -/
def shortLibrary (name : String) : List Definition :=
  [.ofConstant ⟨name, none, none⟩]

end Workspace
end RubyIndex
