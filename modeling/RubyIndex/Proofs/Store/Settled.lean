import RubyIndex.Proofs.Store.Commute

/-!
# Documents at rest

Reindexing a document leaves its modules and classes with the mixins and the superclass that their
references stand for in the store as it is at the end: it does not matter which of them came first,
nor whether a name was resolved before all that it refers to was declared.  For the same reason the
document can be reindexed again without effect.  The second time everything it declared is taken out
and comes back, but no other name is touched, and so every reference finds what it found before.

* `Store.Settled`, what a declared definition has become once its references were resolved;
* `Store.find?_update_congr_last`, what the outcome of a document depends on;
* `Store.update_settles_references`, the outcome of a document in terms of the store at the end;
* `Store.find?_removeUri_update`, taking a document out again leaves what taking it out before left;
* `Store.update_unchanged_document`, reindexing twice is reindexing once.
-/

namespace RubyIndex

/-! ## Association lists -/

namespace Assoc

variable {α β : Type} [DecidableEq α]

/-- What was put under a key goes with the key. -/
theorem erase_set (key : α) (value : β) (a : Assoc α β) :
    erase key (set key value a) = erase key a := by
  induction a with
  | nil => simp [set, erase]
  | cons entry rest ih =>
      rcases entry with ⟨k, v⟩
      by_cases hk : k = key
      · simp [set, erase, hk]
      · simpa [set, erase, hk] using ih

end Assoc

namespace Store

/-! ## Settled definitions -/

/-- The mixins of a module whose references were resolved: what each of them stands for, in order.
A module without written mixins keeps those it had. -/
structure MixinsSettled (final : Store) (written : List Reference) (before after : List String) :
    Prop where
  resolved : written ≠ [] → after = written.map final.resolve
  kept : written = [] → after = before

/-- The superclass of a class whose references were resolved: what the written one stands for, else
the one the class had, else the one that every class has. -/
structure SuperclassSettled (final : Store) (name : String) (c : Class) (after : Option String) :
    Prop where
  resolved : ∀ r, c.writtenSuperclass = some r → after = some (final.resolve r)
  kept : c.writtenSuperclass = none → ∀ superclass, c.superclass = some superclass →
    after = some superclass
  basicObject : c.writtenSuperclass = none → c.superclass = none → name = "BasicObject" →
    after = none
  object : c.writtenSuperclass = none → c.superclass = none → name = "Object" →
    after = some "BasicObject"
  other : c.writtenSuperclass = none → c.superclass = none → name ≠ "BasicObject" →
    name ≠ "Object" → after = some "Object"

/-- What is stored under a name for a declared definition when its references stand for what they
stand for in the store at the end.  Nothing else about the definition changes. -/
inductive Settled (final : Store) (name : String) : Definition → Definition → Prop
  | plain {d : Definition} : d.module? = none → Settled final name d d
  | ofModule {m : Module} {includes prepends : List String} :
      MixinsSettled final m.writtenIncludes m.includes includes →
        MixinsSettled final m.writtenPrepends m.prepends prepends →
          Settled final name (.ofModule m)
            (.ofModule { m with includes := includes, prepends := prepends })
  | ofClass {c : Class} {includes prepends : List String} {superclass : Option String} :
      MixinsSettled final c.base.writtenIncludes c.base.includes includes →
        MixinsSettled final c.base.writtenPrepends c.base.prepends prepends →
          SuperclassSettled final name c superclass →
            Settled final name (.ofClass c)
              (.ofClass
                { c with
                  base := { c.base with includes := includes, prepends := prepends }
                  superclass := superclass })

variable {s : Store}

theorem mixinsSettled_resolveList (s : Store) (written : List Reference) (before : List String) :
    MixinsSettled s written before (s.resolveList written before) where
  resolved := by
    intro hwritten
    simp [resolveList, hwritten]
  kept := by
    intro hnone
    simp [resolveList, hnone]

theorem superclassSettled_resolveSuperclass (s : Store) (name : String) (c : Class) :
    SuperclassSettled s name c (s.resolveSuperclass name c) where
  resolved := by
    intro r hr
    simp [resolveSuperclass, hr]
  kept := by
    intro hnone superclass hsuper
    simp [resolveSuperclass, hnone, hsuper]
  basicObject := by
    intro hnone hsuper hname
    simp [resolveSuperclass, hnone, hsuper, implicitSuperclass, hname]
  object := by
    intro hnone hsuper hname
    simp [resolveSuperclass, hnone, hsuper, implicitSuperclass, hname]
  other := by
    intro hnone hsuper hbasic hobject
    simp [resolveSuperclass, hnone, hsuper, implicitSuperclass, hbasic, hobject]

theorem settled_resolveDefinition (s : Store) (name : String) (d : Definition) :
    Settled s name d (s.resolveDefinition name d) := by
  cases d with
  | ofConstant c => exact .plain rfl
  | ofMethod m => exact .plain rfl
  | ofModule m =>
      exact .ofModule (mixinsSettled_resolveList s _ _) (mixinsSettled_resolveList s _ _)
  | ofClass c =>
      exact .ofClass (mixinsSettled_resolveList s _ _) (mixinsSettled_resolveList s _ _)
        (superclassSettled_resolveSuperclass s name c)

/-! ## Order within a document -/

/-- A reference resolves as soon as one of its candidates is taken. -/
theorem isSome_find?_resolve {r : Reference} {candidate : String} (hmem : candidate ∈ r.candidates)
    (htaken : (s.find? candidate).isSome) : (s.find? (s.resolve r)).isSome := by
  unfold resolve
  cases hfirst : r.candidates.find? fun name => (s.find? name).isSome with
  | none => exact absurd htaken (List.find?_eq_none.1 hfirst candidate hmem)
  | some name => simpa using List.find?_some hfirst

/-- The outcome of a document depends on its last definition of each name, and on what the removal
has left under the other names. -/
theorem find?_update_congr_last {s s' : Store} {uri : String} {definitions other : List Definition}
    (hlast : ∀ name, lastNamed? other name = lastNamed? definitions name)
    (hleft : ∀ name, lastNamed? definitions name = none →
      (s'.removeUri uri).1.find? name = (s.removeUri uri).1.find? name) (name : String) :
    (s'.update uri other).find? name = (s.update uri definitions).find? name := by
  -- The same names are taken at the end, so every reference resolves to the same.
  have htaken : ∀ c, ((s'.update uri other).find? c).isSome =
      ((s.update uri definitions).find? c).isSome := by
    intro c
    rw [isSome_find?_update, isSome_find?_update, hlast]
    cases hc : lastNamed? definitions c with
    | some last => rfl
    | none => rw [hleft c hc]
  rw [find?_update, find?_update, hlast]
  cases hname : lastNamed? definitions name with
  | none => exact hleft name hname
  | some last =>
      have hresolved : (s'.update uri other).resolveDefinition name last =
          (s.update uri definitions).resolveDefinition name last :=
        resolveDefinition_congr (fun c _ => htaken c) name
      simp only [hresolved]

/-- Under every name that a document declares stands its last definition of that name, with the
references resolved in the store at the end.  In particular a reference to what the document
declares anywhere resolves, and the order of definitions matters only where they share a name. -/
theorem update_settles_references (s : Store) (uri : String) (definitions : List Definition) :
    (∀ name last, lastNamed? definitions name = some last →
      ∃ stored, (s.update uri definitions).find? name = some stored ∧
        Settled (s.update uri definitions) name last stored) ∧
    (∀ r : Reference, ∀ candidate ∈ r.candidates,
      candidate ∈ definitions.map Definition.qualifiedName →
        ((s.update uri definitions).find? ((s.update uri definitions).resolve r)).isSome) ∧
    ∀ other, (∀ name, lastNamed? other name = lastNamed? definitions name) →
      ∀ name, (s.update uri other).find? name = (s.update uri definitions).find? name := by
  refine ⟨?_, ?_, ?_⟩
  · intro name last hlast
    refine ⟨(s.update uri definitions).resolveDefinition name last, ?_,
      settled_resolveDefinition _ name last⟩
    rw [find?_update, hlast]
  · intro r candidate hcandidate hdeclared
    refine isSome_find?_resolve hcandidate ?_
    rcases exists_lastNamed?_iff.2 hdeclared with ⟨last, hlast⟩
    rw [isSome_find?_update, hlast]
    rfl
  · intro other hsame name
    exact find?_update_congr_last hsame (fun _ _ => rfl) name

/-- A class as it is written the second time in a document, with a mixin and a superclass that are
declared further down. -/
def journalClass : Class :=
  { base :=
      { constant := ⟨"Journal", none, some ⟨⟨⟨4, 0⟩, ⟨7, 3⟩⟩, "file:///journal.rb"⟩⟩
        includes := ["Stale"]
        writtenIncludes := [⟨"Entries", ["Journal"]⟩]
        prepends := ["Kernel"] }
    writtenSuperclass := some ⟨"Book", ["Journal"]⟩ }

/-- A document that writes a class twice, and gives the name of another one to a constant in the
end. -/
def journalDocument : List Definition :=
  [ .ofClass
      { base := { constant := ⟨"Journal", none, none⟩ }
        writtenSuperclass := some ⟨"Draft", []⟩ },
    .ofClass { base := { constant := ⟨"Draft", none, none⟩ } },
    .ofClass journalClass,
    .ofModule { constant := ⟨"Journal::Entries", none, none⟩ },
    .ofClass { base := { constant := ⟨"Book", none, none⟩ } },
    .ofConstant ⟨"Draft", none, some ⟨⟨⟨9, 0⟩, ⟨9, 9⟩⟩, "file:///journal.rb"⟩⟩ ]

theorem journalDocument_settled :
    let final := update {} "file:///journal.rb" journalDocument
    lastNamed? journalDocument "Journal" = some (.ofClass journalClass) ∧
      (∃ stored, final.find? "Journal" = some stored ∧
        Settled final "Journal" (.ofClass journalClass) stored) ∧
      (final.find? (final.resolve ⟨"Book", ["Journal"]⟩)).isSome ∧
      final.find? "Journal" = some (.ofClass
        { journalClass with
          base := { journalClass.base with includes := ["Journal::Entries"] }
          superclass := some "Book" }) ∧
      ∀ name, (update {} "file:///journal.rb" journalDocument.tail).find? name =
        final.find? name := by
  intro final
  rcases update_settles_references {} "file:///journal.rb" journalDocument with
    ⟨hsettled, hresolved, horder⟩
  have hlast : lastNamed? journalDocument "Journal" = some (.ofClass journalClass) := by decide
  refine ⟨hlast, hsettled _ _ hlast, hresolved _ "Book" (by decide) (by decide), by decide, ?_⟩
  -- the first definition is followed by another one of its name
  refine horder _ ?_
  intro name
  by_cases hname : name = "Journal"
  · subst hname
    decide
  · have hcons := lastNamed?_cons (journalDocument.head (by decide)) journalDocument.tail name
    rw [if_neg (by exact hname), Option.or_none] at hcons
    exact hcons.symm

/-! ## Reindexing again -/

section Again

variable {uri : String} {definitions : List Definition}

/-- A reindexed document lists only what it declares. -/
theorem mem_of_mem_listing_update {name : String}
    (h : name ∈ (s.update uri definitions).listing uri) :
    name ∈ definitions.map Definition.qualifiedName := by
  rw [listing_update, listing_removeUri, if_pos rfl, List.nil_append] at h
  exact (List.filter_sublist.map Definition.qualifiedName).subset h

/-- Taking the document out again touches no name that it does not declare. -/
theorem find?_removeUri_update {name : String}
    (h : name ∉ definitions.map Definition.qualifiedName) :
    ((s.update uri definitions).removeUri uri).1.find? name = (s.removeUri uri).1.find? name := by
  have hlisted : name ∉ (s.update uri definitions).listing uri :=
    fun hmem => h (mem_of_mem_listing_update hmem)
  calc
    ((s.update uri definitions).removeUri uri).1.find? name
        = (s.update uri definitions).find? name := by
          rw [find?_removeUri, if_neg fun hdrop => hlisted hdrop.1]
    _ = (s.removeUri uri).1.find? name := find?_update_of_not_declared h s uri

theorem find?_update_update_same (name : String) :
    ((s.update uri definitions).update uri definitions).find? name =
      (s.update uri definitions).find? name := by
  refine find?_update_congr_last (fun _ => rfl) ?_ name
  -- what the document does not declare is left alone by the second removal
  intro left hleft
  exact find?_removeUri_update (lastNamed?_eq_none_iff.1 hleft)

/-- Which lists of names come out depends only on those that were there. -/
theorem listings_foldl_declare_congr {s' : Store} (h : s.listings = s'.listings) :
    (definitions.foldl (declare uri) s).listings =
      (definitions.foldl (declare uri) s').listings := by
  induction definitions generalizing s s' with
  | nil => exact h
  | cons d rest ih =>
      refine ih ?_
      simp only [declare, list, listing, insert, h]

theorem listings_update (s : Store) :
    (s.update uri definitions).listings =
      (definitions.foldl (declare uri) (s.removeUri uri).1).listings :=
  listings_resolveNamespaces _ _

/-- Definitions that a document declares for itself are all on its own list. -/
theorem erase_listings_foldl_declare (h : ∀ d ∈ definitions, d.uri = none ∨ d.uri = some uri)
    (s : Store) :
    (definitions.foldl (declare uri) s).listings.erase uri = s.listings.erase uri := by
  refine List.foldlRecOn definitions (declare uri)
    (motive := fun s' => s'.listings.erase uri = s.listings.erase uri) rfl ?_
  intro s' hs' d hd
  have howner : d.uri.getD uri = uri := by
    rcases h d hd with hnone | hown
    · simp [hnone]
    · simp [hown]
  simp only [declare, list, howner]
  rw [Assoc.erase_set]
  exact hs'

theorem listings_update_update (h : ∀ d ∈ definitions, d.uri = none ∨ d.uri = some uri) :
    ((s.update uri definitions).update uri definitions).listings =
      (s.update uri definitions).listings := by
  -- All that the document has added is on its own list, which goes first.
  have hremoved : ((s.update uri definitions).removeUri uri).1.listings =
      (s.removeUri uri).1.listings := by
    rw [listings_removeUri, listings_update, erase_listings_foldl_declare h, listings_removeUri,
      Assoc.erase_erase]
  rw [listings_update, listings_update s]
  exact listings_foldl_declare_congr hremoved

end Again

/-- Reindexing a document a second time changes no definition, the resolved names included; and if
the document declares nothing for other documents, it changes no list of names. -/
theorem update_unchanged_document (s : Store) (uri : String) (definitions : List Definition) :
    (∀ name, ((s.update uri definitions).update uri definitions).find? name =
      (s.update uri definitions).find? name) ∧
    ((∀ d ∈ definitions, d.uri = none ∨ d.uri = some uri) →
      ((s.update uri definitions).update uri definitions).listings =
        (s.update uri definitions).listings) :=
  ⟨find?_update_update_same, listings_update_update⟩

/-- Some of the definitions are located in the document and some are nowhere. -/
theorem journalDocument_unchanged :
    let once := reportStore.update "file:///journal.rb" journalDocument
    (∀ d ∈ journalDocument, d.uri = none ∨ d.uri = some "file:///journal.rb") ∧
      (∀ name, (once.update "file:///journal.rb" journalDocument).find? name = once.find? name) ∧
      (once.update "file:///journal.rb" journalDocument).listings = once.listings := by
  have hown : ∀ d ∈ journalDocument, d.uri = none ∨ d.uri = some "file:///journal.rb" := by
    decide
  rcases update_unchanged_document reportStore "file:///journal.rb" journalDocument with
    ⟨hfind, hlistings⟩
  exact ⟨hown, hfind, hlistings hown⟩

end Store
end RubyIndex
