import RubyIndex.Proofs.Store.Lookup

/-!
# Consistency of the two maps of a store

A store keeps its definitions by name and, for each document, the names that document declared.
Definitions are overwritten by other documents, declared for a document other than the one they
stand in, and rewritten in their place when references are resolved; the two maps agree through all
of this.

* `Store.Reachable`, the stores that can arise;
* `Store.Consistent`, what holds of the two maps, with one lemma for each operation;
* `Store.entries_and_listings_agree`, every store that can arise is consistent.
-/

namespace RubyIndex
namespace Store

/-- The stores that arise from the empty one.  Only definitions without a location are added
outside of documents; a document may declare definitions for itself, for any other document or for
none. -/
inductive Reachable : Store → Prop
  | empty : Reachable {}
  | addAll {s : Store} {definitions : List Definition} :
      Reachable s → (∀ d ∈ definitions, d.location = none) → Reachable (s.addAll definitions)
  | update {s : Store} (uri : String) (definitions : List Definition) :
      Reachable s → Reachable (s.update uri definitions)
  | removeUri {s : Store} (uri : String) :
      Reachable s → Reachable (s.removeUri uri).1

/-- Every name has one definition, which carries that name, and a definition with a location is
listed for the document of that location. -/
structure Consistent (s : Store) : Prop where
  keys_nodup : s.entries.keys.Nodup
  name_eq : ∀ {name d}, s.find? name = some d → d.qualifiedName = name
  listed : ∀ {name d uri}, s.find? name = some d → d.uri = some uri → name ∈ s.listing uri

/-! ## Distinct names -/

theorem keys_nodup_dropName {uri : String} {state : Store × Nat} (name : String)
    (h : state.1.entries.keys.Nodup) : (dropName uri state name).1.entries.keys.Nodup := by
  unfold dropName
  split
  · exact Assoc.nodup_keys_erase h
  · exact h

theorem keys_nodup_removeUri {s : Store} (uri : String) (h : s.entries.keys.Nodup) :
    (s.removeUri uri).1.entries.keys.Nodup := by
  refine List.foldlRecOn (s.listing uri) (dropName uri)
    (motive := fun state => state.1.entries.keys.Nodup) ?_ ?_
  · exact h
  · intro state hstate name _
    exact keys_nodup_dropName name hstate

theorem keys_nodup_resolveName {s : Store} (name : String) (h : s.entries.keys.Nodup) :
    (s.resolveName name).entries.keys.Nodup := by
  unfold resolveName
  split
  · exact Assoc.nodup_keys_set h
  · exact h

namespace Consistent

variable {s : Store}

theorem empty : Consistent {} where
  keys_nodup := List.nodup_nil
  name_eq := by
    intro name d h
    simp [find?, Assoc.find?] at h
  listed := by
    intro name d uri h
    simp [find?, Assoc.find?] at h

/-! ## The operations -/

/-- A new definition stands under its own name, and the others stay where they are. -/
theorem name_eq_of_added (h : Consistent s) {s' : Store} {d : Definition}
    (hadded : ∀ name, s'.find? name = if name = d.qualifiedName then some d else s.find? name)
    {name : String} {e : Definition} (he : s'.find? name = some e) : e.qualifiedName = name := by
  rw [hadded] at he
  split at he
  · rename_i hname
    cases he
    exact hname.symm
  · exact h.name_eq he

/-- A definition without a location needs no list. -/
theorem insert (h : Consistent s) {d : Definition} (hd : d.location = none) :
    Consistent (s.insert d) where
  keys_nodup := Assoc.nodup_keys_set h.keys_nodup
  name_eq := h.name_eq_of_added (find?_insert s d)
  listed := by
    intro name e uri he huri
    rw [find?_insert] at he
    split at he
    · cases he
      rw [Definition.uri_eq_none_of_location hd] at huri
      cases huri
    · exact h.listed he huri

theorem addAll (h : Consistent s) {definitions : List Definition}
    (hfree : ∀ d ∈ definitions, d.location = none) : Consistent (s.addAll definitions) := by
  refine List.foldlRecOn definitions Store.insert (motive := Consistent) h ?_
  intro s' hs' d hd
  exact hs'.insert (hfree d hd)

/-- A definition of a document is listed for the document it declares for itself. -/
theorem declare (h : Consistent s) (uri : String) (d : Definition) :
    Consistent (Store.declare uri s d) where
  keys_nodup := Assoc.nodup_keys_set h.keys_nodup
  name_eq := h.name_eq_of_added (find?_declare uri s d)
  listed := by
    intro name e uri' he huri
    rw [find?_declare] at he
    rw [listing_declare]
    split at he
    · -- the new definition comes last on the list it asks for
      rename_i hname
      cases he
      simp [huri, hname]
    · exact List.mem_append_left _ (h.listed he huri)

/-- A document owns what was declared for it, so nothing declared for it is left when its list
goes. -/
theorem removeUri (h : Consistent s) (uri : String) : Consistent (s.removeUri uri).1 where
  keys_nodup := keys_nodup_removeUri uri h.keys_nodup
  name_eq := by
    intro name d hd
    rw [find?_removeUri] at hd
    split at hd
    · cases hd
    · exact h.name_eq hd
  listed := by
    intro name d uri' hd huri
    rw [find?_removeUri] at hd
    split at hd
    · cases hd
    · rename_i hkept
      have hmem := h.listed hd huri
      rw [listing_removeUri]
      split
      · -- the list that goes is the definition's own, so the definition went with it
        rename_i heq
        subst heq
        have howns : s.owns uri' name = true := by simp [owns, hd, huri]
        exact absurd ⟨hmem, howns⟩ hkept
      · exact hmem

/-- Resolving rewrites a definition in its place and keeps its name and its document. -/
theorem resolveName (h : Consistent s) (name : String) : Consistent (s.resolveName name) := by
  -- What is found afterwards was found before, up to the resolved names.
  have hbefore : ∀ {name' d}, (s.resolveName name).find? name' = some d →
      ∃ e, s.find? name' = some e ∧ e.outline = d.outline := by
    intro name' d hd
    have hout : s.outline? name' = some d.outline := by
      rw [← outline?_resolveName s name name']
      simp [outline?, hd]
    simpa [outline?] using hout
  refine ⟨keys_nodup_resolveName name h.keys_nodup, ?_, ?_⟩
  · intro name' d hd
    rcases hbefore hd with ⟨e, he, hout⟩
    rw [← Definition.qualifiedName_eq_of_outline_eq hout]
    exact h.name_eq he
  · intro name' d uri hd huri
    rcases hbefore hd with ⟨e, he, hout⟩
    rw [← Definition.uri_eq_of_outline_eq hout] at huri
    have hmem := h.listed he huri
    unfold listing at hmem ⊢
    rw [listings_resolveName]
    exact hmem

theorem resolveNamespaces (h : Consistent s) (names : List String) :
    Consistent (s.resolveNamespaces names) := by
  refine List.foldlRecOn names Store.resolveName (motive := Consistent) h ?_
  intro s' hs' name _
  exact hs'.resolveName name

theorem update (h : Consistent s) (uri : String) (definitions : List Definition) :
    Consistent (s.update uri definitions) := by
  -- the three phases, one after the other
  have hadded : Consistent (definitions.foldl (Store.declare uri) (s.removeUri uri).1) := by
    refine List.foldlRecOn definitions (Store.declare uri) (motive := Consistent)
      (h.removeUri uri) ?_
    intro s' hs' d _
    exact hs'.declare uri d
  exact hadded.resolveNamespaces _

end Consistent

/-! ## Every store that can arise -/

theorem Reachable.consistent {s : Store} (h : Reachable s) : Consistent s := by
  induction h with
  | empty => exact Consistent.empty
  | addAll _ hfree ih => exact ih.addAll hfree
  | update uri definitions _ ih => exact ih.update uri definitions
  | removeUri uri _ ih => exact ih.removeUri uri

/-- In every store that can arise, the names are distinct, every definition stands under its own
name, and every definition with a location is on the list of the document it is located in. -/
theorem entries_and_listings_agree {s : Store} (h : Reachable s) :
    s.entries.keys.Nodup ∧
      (∀ entry ∈ s.entries, entry.2.qualifiedName = entry.1) ∧
      ∀ d ∈ s.definitions, ∀ uri, d.uri = some uri →
        ∃ names, s.listings.find? uri = some names ∧ d.qualifiedName ∈ names := by
  have hs := h.consistent
  refine ⟨hs.keys_nodup, ?_, ?_⟩
  · intro entry hentry
    exact hs.name_eq (Assoc.find?_of_mem hs.keys_nodup hentry)
  · intro d hd uri huri
    rcases List.mem_map.1 hd with ⟨⟨name, e⟩, hentry, rfl⟩
    have hfind : s.find? name = some e := Assoc.find?_of_mem hs.keys_nodup hentry
    have hmem := hs.listed hfind huri
    rw [← hs.name_eq hfind] at hmem
    unfold listing at hmem
    cases hnames : s.listings.find? uri with
    | none => simp [hnames] at hmem
    | some names => exact ⟨names, rfl, by simpa [hnames] using hmem⟩

/-- A store after two documents declared `Foo`, the first of them also `Generated` for a third one,
and the first one was removed. -/
def sharedStore : Store :=
  let span : Range := ⟨⟨1, 0⟩, ⟨1, 1⟩⟩
  let foo (uri : String) : Definition := .ofConstant ⟨"Foo", none, some ⟨span, uri⟩⟩
  let generated : Definition := .ofConstant ⟨"Generated", none, some ⟨span, "file:///b.rb"⟩⟩
  let builtin : Store := addAll {} [.ofConstant ⟨"String", none, none⟩]
  let first := builtin.update "file:///a.rb" [foo "file:///a.rb", generated]
  let second := first.update "file:///c.rb" [foo "file:///c.rb"]
  (second.removeUri "file:///a.rb").1

theorem reachable_sharedStore : Reachable sharedStore :=
  .removeUri _ (.update _ _ (.update _ _ (.addAll .empty (by decide))))

theorem sharedStore_agrees :
    Reachable sharedStore ∧
      sharedStore.entries.keys.Nodup ∧
      (∀ entry ∈ sharedStore.entries, entry.2.qualifiedName = entry.1) ∧
      ∀ d ∈ sharedStore.definitions, ∀ uri, d.uri = some uri →
        ∃ names, sharedStore.listings.find? uri = some names ∧ d.qualifiedName ∈ names :=
  ⟨reachable_sharedStore, entries_and_listings_agree reachable_sharedStore⟩

end Store
end RubyIndex
