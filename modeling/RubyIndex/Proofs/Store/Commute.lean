import RubyIndex.Proofs.Store.Ownership
import RubyIndex.Proofs.Store.Resolution

/-!
# Documents in either order

Two documents that have nothing to do with each other can be reindexed in either order.  A document
touches the names it declares and those that are listed for it; besides these its outcome depends
only on which candidates of its references are taken.

* `Store.touched`, the names whose definitions a document may change;
* `Store.find?_update_of_not_touched`, it changes no others;
* `Store.find?_update_congr`, what its outcome depends on;
* `Store.update_comm`, independent documents commute.
-/

namespace RubyIndex
namespace Store

/-- The names that a document declares now, or that are listed for it from before. -/
def touched (s : Store) (uri : String) (definitions : List Definition) : List String :=
  definitions.map Definition.qualifiedName ++ s.listing uri

/-- No reference that some definitions are written with may stand for one of the names. -/
def Avoids (definitions : List Definition) (names : List String) : Prop :=
  ∀ d ∈ definitions, ∀ name ∈ d.candidates, name ∉ names

instance (definitions : List Definition) (names : List String) :
    Decidable (Avoids definitions names) :=
  inferInstanceAs (Decidable (∀ d ∈ definitions, ∀ name ∈ d.candidates, name ∉ names))

/-! ## Lists of names -/

section Listings

variable {uri uri' : String} {definitions : List Definition}

/-- Definitions of a document's own add to no other list. -/
theorem find?_listings_foldl_declare (h : OwnedBy uri definitions) (s : Store) (uri' : String) :
    (definitions.foldl (declare uri) s).listings.find? uri' =
      if uri' = uri ∧ definitions ≠ [] then
        some (s.listing uri ++ definitions.map Definition.qualifiedName)
      else s.listings.find? uri' := by
  induction definitions generalizing s with
  | nil => simp
  | cons d rest ih =>
      have hd : d.uri = some uri := h d List.mem_cons_self
      have hrest : OwnedBy uri rest := fun e he => h e (List.mem_cons_of_mem _ he)
      have hfind : (declare uri s d).listings.find? uri' =
          if uri' = uri then some (s.listing uri ++ [d.qualifiedName])
          else s.listings.find? uri' := by
        simp only [declare, hd, Option.getD_some]
        exact Assoc.find?_set ..
      have hlisting : (declare uri s d).listing uri = s.listing uri ++ [d.qualifiedName] := by
        rw [listing_declare]
        simp [hd]
      rw [List.foldl_cons, ih hrest, hfind, hlisting]
      by_cases huri : uri' = uri
      · by_cases hnil : rest = []
        · simp [huri, hnil]
        · simp [huri, hnil]
      · simp [huri]

/-- A document that declares for itself gets a new list, unless it declares nothing, and the other
lists stay. -/
theorem find?_listings_update (h : OwnedBy uri definitions) (s : Store) (uri' : String) :
    (s.update uri definitions).listings.find? uri' =
      if uri' = uri then
        if definitions = [] then none else some (definitions.map Definition.qualifiedName)
      else s.listings.find? uri' := by
  have hempty : (s.removeUri uri).1.listing uri = [] := by
    rw [listing_removeUri, if_pos rfl]
  unfold update
  rw [listings_resolveNamespaces, find?_listings_foldl_declare h, hempty, listings_removeUri,
    Assoc.find?_erase]
  by_cases huri : uri' = uri
  · by_cases hnil : definitions = []
    · simp [huri, hnil]
    · simp [huri, hnil]
  · simp [huri]

theorem listing_update_of_ne (h : OwnedBy uri definitions) (s : Store) (hne : uri' ≠ uri) :
    (s.update uri definitions).listing uri' = s.listing uri' := by
  unfold listing
  rw [find?_listings_update h, if_neg hne]

end Listings

/-! ## One document -/

theorem find?_update_of_not_touched {s : Store} {uri name : String}
    {definitions : List Definition} (h : name ∉ s.touched uri definitions) :
    (s.update uri definitions).find? name = s.find? name := by
  have hdeclared : name ∉ definitions.map Definition.qualifiedName :=
    fun hmem => h (List.mem_append_left _ hmem)
  have hlisted : name ∉ s.listing uri := fun hmem => h (List.mem_append_right _ hmem)
  rw [find?_update_of_not_declared hdeclared, find?_removeUri, if_neg]
  rintro ⟨hmem, _⟩
  exact hlisted hmem

/-- What is left under a name when a document goes depends on that name and on the document's
list. -/
theorem find?_removeUri_congr {s s' : Store} {uri name : String}
    (hlisting : s.listing uri = s'.listing uri) (hname : s.find? name = s'.find? name) :
    (s.removeUri uri).1.find? name = (s'.removeUri uri).1.find? name := by
  rw [find?_removeUri, find?_removeUri, hlisting, hname, owns_congr hname]

theorem isSome_find?_update (s : Store) (uri : String) (definitions : List Definition)
    (name : String) :
    ((s.update uri definitions).find? name).isSome =
      ((lastNamed? definitions name).isSome || ((s.removeUri uri).1.find? name).isSome) := by
  rw [find?_update]
  cases lastNamed? definitions name <;> simp

/-- Two stores that agree on the list of a document, on a name and on which candidates are taken
agree on that name after the document was reindexed. -/
theorem find?_update_congr {s s' : Store} {uri name : String} {definitions : List Definition}
    (hlisting : s.listing uri = s'.listing uri) (hname : s.find? name = s'.find? name)
    (hcandidates : ∀ d ∈ definitions, ∀ c ∈ d.candidates, s.find? c = s'.find? c) :
    (s.update uri definitions).find? name = (s'.update uri definitions).find? name := by
  rw [find?_update, find?_update]
  cases hlast : lastNamed? definitions name with
  | none => exact find?_removeUri_congr hlisting hname
  | some last =>
      have hmem := (lastNamed?_eq_some hlast).1
      have htaken : SameTaken (s.update uri definitions) (s'.update uri definitions)
          last.candidates := by
        intro c hc
        rw [isSome_find?_update, isSome_find?_update,
          find?_removeUri_congr hlisting (hcandidates last hmem c hc)]
      simp only [resolveDefinition_congr htaken]

/-! ## Two documents -/

section Independent

variable {s : Store} {uri₁ uri₂ : String} {first second : List Definition}

/-- A document is reindexed in the same way before another one and after, as far as the names go
that the other one does not touch. -/
theorem find?_update_update (hne : uri₁ ≠ uri₂) (hfirst : OwnedBy uri₁ first)
    (hsecond : OwnedBy uri₂ second) (havoids : Avoids first (s.touched uri₂ second)) {name : String}
    (h : name ∉ s.touched uri₂ second) :
    ((s.update uri₁ first).update uri₂ second).find? name =
      ((s.update uri₂ second).update uri₁ first).find? name := by
  -- the first document leaves the list of the second as it is
  have hlisting : (s.update uri₁ first).listing uri₂ = s.listing uri₂ :=
    listing_update_of_ne hfirst s hne.symm
  have hkept : name ∉ (s.update uri₁ first).touched uri₂ second := by
    unfold touched
    rw [hlisting]
    exact h
  calc ((s.update uri₁ first).update uri₂ second).find? name
      = (s.update uri₁ first).find? name := find?_update_of_not_touched hkept
    _ = ((s.update uri₂ second).update uri₁ first).find? name := by
        refine find?_update_congr ?_ ?_ ?_
        · exact (listing_update_of_ne hsecond s hne).symm
        · exact (find?_update_of_not_touched h).symm
        · intro d hd c hc
          exact (find?_update_of_not_touched (havoids d hd c hc)).symm

/-- Two documents that declare definitions located in themselves, touch no name together, and write
no reference that may stand for a name the other one touches leave the same definitions and the same
lists in either order. -/
theorem update_comm (s : Store) (hne : uri₁ ≠ uri₂) (hfirst : OwnedBy uri₁ first)
    (hsecond : OwnedBy uri₂ second)
    (hdisjoint : ∀ name ∈ s.touched uri₁ first, name ∉ s.touched uri₂ second)
    (havoids₁ : Avoids first (s.touched uri₂ second))
    (havoids₂ : Avoids second (s.touched uri₁ first)) :
    (∀ name, ((s.update uri₁ first).update uri₂ second).find? name =
      ((s.update uri₂ second).update uri₁ first).find? name) ∧
    ∀ uri, ((s.update uri₁ first).update uri₂ second).listings.find? uri =
      ((s.update uri₂ second).update uri₁ first).listings.find? uri := by
  refine ⟨?_, ?_⟩
  · intro name
    by_cases htouched : name ∈ s.touched uri₂ second
    · have hfree : name ∉ s.touched uri₁ first := fun h => hdisjoint name h htouched
      exact (find?_update_update hne.symm hsecond hfirst havoids₂ hfree).symm
    · exact find?_update_update hne hfirst hsecond havoids₁ htouched
  · intro uri
    rw [find?_listings_update hsecond, find?_listings_update hfirst,
      find?_listings_update hfirst, find?_listings_update hsecond]
    by_cases huri : uri = uri₁
    · simp [huri, hne]
    · simp [huri]

end Independent

/-- A class in one document, derived from a class of the library, with a mixin that the document
itself declares. -/
def reportDocument : List Definition :=
  let spot (line : UInt32) : Option Location :=
    some ⟨⟨⟨line, 0⟩, ⟨line, 9⟩⟩, "file:///report.rb"⟩
  [ .ofClass
      { base :=
          { constant := ⟨"Report", none, spot 1⟩, writtenIncludes := [⟨"Printing", ["Report"]⟩] }
        writtenSuperclass := some ⟨"Base", []⟩ },
    .ofModule { constant := ⟨"Report::Printing", none, spot 2⟩ } ]

/-- A class in another document, derived from the same class. -/
def invoiceDocument : List Definition :=
  [ .ofClass
      { base := { constant := ⟨"Invoice", none, some ⟨⟨⟨1, 0⟩, ⟨1, 9⟩⟩, "file:///invoice.rb"⟩⟩ }
        writtenSuperclass := some ⟨"Base", ["Invoices"]⟩ } ]

/-- A library with an older version of the first document. -/
def reportStore : Store :=
  let base : Definition := .ofClass { base := { constant := ⟨"Base", none, none⟩ } }
  let draft : Definition :=
    .ofConstant ⟨"Draft", none, some ⟨⟨⟨1, 0⟩, ⟨1, 9⟩⟩, "file:///report.rb"⟩⟩
  (addAll {} [base]).update "file:///report.rb" [draft]

theorem reportStore_update_comm :
    let first := (reportStore.update "file:///report.rb" reportDocument).update
      "file:///invoice.rb" invoiceDocument
    let second := (reportStore.update "file:///invoice.rb" invoiceDocument).update
      "file:///report.rb" reportDocument
    OwnedBy "file:///report.rb" reportDocument ∧ OwnedBy "file:///invoice.rb" invoiceDocument ∧
      (∀ name ∈ reportStore.touched "file:///report.rb" reportDocument,
        name ∉ reportStore.touched "file:///invoice.rb" invoiceDocument) ∧
      (∀ name, first.find? name = second.find? name) ∧
      ∀ uri, first.listings.find? uri = second.listings.find? uri := by
  have hreport : OwnedBy "file:///report.rb" reportDocument := by
    unfold OwnedBy
    decide
  have hinvoice : OwnedBy "file:///invoice.rb" invoiceDocument := by
    unfold OwnedBy
    decide
  have hdisjoint : ∀ name ∈ reportStore.touched "file:///report.rb" reportDocument,
      name ∉ reportStore.touched "file:///invoice.rb" invoiceDocument := by
    decide
  exact ⟨hreport, hinvoice, hdisjoint,
    update_comm reportStore (by decide) hreport hinvoice hdisjoint (by decide +kernel)
      (by decide +kernel)⟩

end Store
end RubyIndex
