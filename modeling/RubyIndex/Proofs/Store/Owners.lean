import Mathlib.Data.List.Induction
import RubyIndex.Proofs.Store.Ownership

/-!
# Listed documents and owners

A store lists the documents that declared something when they were indexed last.  It is not told
when another source declares the same names, so a document may be listed that owns nothing any more.
Which documents are listed and which own something is said by looking back at the changes of the
store.

* `Store.Change`, `Store.replay`, the changes of a store one after the other;
* `Store.last?`, the last change of some sort;
* `Store.owner?_apply_iff`, `Store.mem_uris_apply_iff`, what one change does to the owner of a name
  and to the listed documents;
* `Store.owner?_replay_iff`, `Store.mem_uris_replay_iff`, the same for many changes;
* `Store.uris_owner_iff`, when a listed document owns something;
* `Store.not_uris_owner`, a listed document that owns nothing.
-/

namespace RubyIndex

namespace Store

/-! ## Changes -/

/-- What happens to a store: definitions are added that belong to no document, a document is
indexed, or one is removed. -/
inductive Change
  | added (definitions : List Definition)
  | updated (uri : String) (definitions : List Definition)
  | removed (uri : String)
  deriving DecidableEq, Repr

namespace Change

def apply (s : Store) : Change → Store
  | added definitions => s.addAll definitions
  | updated uri definitions => s.update uri definitions
  | removed uri => (s.removeUri uri).1

/-- What a change declares. -/
def definitions : Change → List Definition
  | added definitions | updated _ definitions => definitions
  | removed _ => []

/-- Whether a change declares a name. -/
def declares (name : String) (c : Change) : Bool :=
  name ∈ c.definitions.map Definition.qualifiedName

/-- Whether a change replaces or drops what a document declares. -/
def reindexes (uri : String) : Change → Bool
  | added _ => false
  | updated uri' _ | removed uri' => uri' = uri

/-- Definitions that belong to no document have no location, and a document declares what is located
in itself. -/
def Regular : Change → Prop
  | added definitions => ∀ d ∈ definitions, d.location = none
  | updated uri definitions => OwnedBy uri definitions
  | removed _ => True

theorem declares_iff {name : String} {c : Change} :
    c.declares name = true ↔ ∃ last, lastNamed? c.definitions name = some last := by
  rw [exists_lastNamed?_iff, declares, decide_eq_true_iff]

theorem lastNamed?_of_not_declares {name : String} {c : Change} (h : ¬c.declares name = true) :
    lastNamed? c.definitions name = none := by
  rw [declares_iff] at h
  exact Option.eq_none_iff_forall_ne_some.2 fun last hlast => h ⟨last, hlast⟩

end Change

/-- The store after some changes. -/
def replay (changes : List Change) : Store :=
  changes.foldl Change.apply {}

theorem replay_concat (changes : List Change) (c : Change) :
    replay (changes ++ [c]) = c.apply (replay changes) := by
  simp [replay]

/-- The last change of some sort. -/
def last? (p : Change → Bool) (changes : List Change) : Option Change :=
  changes.reverse.find? p

theorem last?_concat (p : Change → Bool) (changes : List Change) (c : Change) :
    last? p (changes ++ [c]) = if p c then some c else last? p changes := by
  cases h : p c <;> simp [last?, h]

theorem last?_some {p : Change → Bool} {changes : List Change} {c : Change}
    (h : last? p changes = some c) : p c = true :=
  List.find?_some h

/-! ## One change -/

/-- The document in which what stands under a name is located. -/
def owner? (s : Store) (name : String) : Option String :=
  (s.find? name).bind Definition.uri

theorem owner?_eq_some_iff {s : Store} {name uri : String} :
    s.owner? name = some uri ↔ ∃ d, s.find? name = some d ∧ d.uri = some uri :=
  Option.bind_eq_some_iff

section OneChange

variable {s : Store} {c : Change}

theorem Consistent.apply (h : Consistent s) (hc : c.Regular) : Consistent (c.apply s) := by
  cases c with
  | added definitions => exact h.addAll hc
  | updated uri definitions => exact h.update uri definitions
  | removed uri => exact h.removeUri uri

/-- What a document owns goes when it is removed, and all else stays where it was. -/
theorem owner?_removeUri_iff (h : Consistent s) (uri uri' name : String) :
    (s.removeUri uri').1.owner? name = some uri ↔ uri' ≠ uri ∧ s.owner? name = some uri := by
  simp only [owner?_eq_some_iff]
  constructor
  · rintro ⟨d, hd, huri⟩
    have hne : uri' ≠ uri := by
      rintro rfl
      exact h.uri_ne_of_find?_removeUri hd huri
    rw [find?_removeUri] at hd
    split at hd
    · cases hd
    · exact ⟨hne, d, hd, huri⟩
  · rintro ⟨hne, d, hd, huri⟩
    exact ⟨d, find?_removeUri_of_kept hd (Or.inr ⟨uri, huri, hne.symm⟩), huri⟩

/-- A name that a change declares is located where the change is about, if it is about a document at
all.  Any other name keeps its owner unless that is the document the change is about. -/
theorem owner?_apply_iff (h : Consistent s) (hc : c.Regular) (uri name : String) :
    (c.apply s).owner? name = some uri ↔
      if c.declares name then c.reindexes uri = true
      else c.reindexes uri = false ∧ s.owner? name = some uri := by
  by_cases hdeclares : c.declares name = true
  · rw [if_pos hdeclares]
    rcases Change.declares_iff.1 hdeclares with ⟨last, hlast⟩
    have hmem := (lastNamed?_eq_some hlast).1
    cases c with
    | added definitions =>
        -- the library has no document, so it takes the name away from the one it had
        have hlast' : lastNamed? definitions name = some last := hlast
        have hfind : (s.addAll definitions).find? name = some last := by
          rw [find?_addAll, hlast']
          rfl
        have huri := Definition.uri_eq_none_of_location (hc last hmem)
        simp [Change.apply, Change.reindexes, owner?, hfind, huri]
    | updated uri' definitions =>
        have hlast' : lastNamed? definitions name = some last := hlast
        rcases find?_update_of_declared hlast' s uri' with ⟨d, hd, hout⟩
        have huri : d.uri = some uri' := (Definition.uri_eq_of_outline_eq hout).trans (hc last hmem)
        simp [Change.apply, Change.reindexes, owner?, hd, huri]
    | removed uri' => cases hmem
  · rw [if_neg hdeclares]
    have hnone := Change.lastNamed?_of_not_declares hdeclares
    cases c with
    | added definitions =>
        have hfind : (s.addAll definitions).find? name = s.find? name :=
          find?_addAll_of_not_declared (lastNamed?_eq_none_iff.1 hnone) s
        simp [Change.apply, Change.reindexes, owner?, hfind]
    | updated uri' definitions =>
        -- only the removal of the old version touches the name
        have hfind := find?_update_of_not_declared (lastNamed?_eq_none_iff.1 hnone) s uri'
        have howner : (s.update uri' definitions).owner? name =
            (s.removeUri uri').1.owner? name := congrArg (Option.bind · Definition.uri) hfind
        simp only [Change.apply, Change.reindexes, howner, owner?_removeUri_iff h,
          decide_eq_false_iff_not, ne_eq]
    | removed uri' =>
        simp only [Change.apply, Change.reindexes, owner?_removeUri_iff h,
          decide_eq_false_iff_not, ne_eq]

/-! ## Listed documents -/

theorem mem_uris_iff {uri : String} : uri ∈ s.uris ↔ (s.listings.find? uri).isSome :=
  Assoc.isSome_find?_iff.symm

theorem mem_uris_declare_iff {uri uri' : String} {d : Definition} (hd : d.uri = some uri') :
    uri ∈ (declare uri' s d).uris ↔ uri' = uri ∨ uri ∈ s.uris := by
  have howner : d.uri.getD uri' = uri' := by simp [hd]
  have hlistings : (declare uri' s d).listings =
      s.listings.set uri' (s.listing uri' ++ [d.qualifiedName]) := by
    unfold declare
    rw [howner]
    rfl
  rw [mem_uris_iff, hlistings, Assoc.find?_set, mem_uris_iff]
  by_cases h : uri = uri'
  · simp [h]
  · have h' : ¬uri' = uri := fun e => h e.symm
    simp [h, h']

/-- A document is listed as soon as it declares something. -/
theorem mem_uris_foldl_declare_iff {uri uri' : String} {definitions : List Definition}
    (howned : OwnedBy uri' definitions) :
    uri ∈ (definitions.foldl (declare uri') s).uris ↔
      (uri' = uri ∧ definitions ≠ []) ∨ uri ∈ s.uris := by
  induction definitions generalizing s with
  | nil => simp
  | cons d rest ih =>
      have hd := howned d List.mem_cons_self
      have hrest : OwnedBy uri' rest := fun e he => howned e (List.mem_cons_of_mem _ he)
      rw [List.foldl_cons, ih hrest, mem_uris_declare_iff hd]
      by_cases h : uri' = uri <;> simp [h]

theorem mem_uris_removeUri_iff {uri uri' : String} :
    uri ∈ (s.removeUri uri').1.uris ↔ uri' ≠ uri ∧ uri ∈ s.uris := by
  rw [mem_uris_iff, listings_removeUri, Assoc.find?_erase, mem_uris_iff]
  by_cases h : uri = uri'
  · simp [h]
  · have h' : ¬uri' = uri := fun e => h e.symm
    simp [h, h']

/-- After a change, a document that the change is about is listed when it declares something, and
the others are listed as before. -/
theorem mem_uris_apply_iff (hc : c.Regular) (uri : String) :
    uri ∈ (c.apply s).uris ↔
      if c.reindexes uri then c.definitions ≠ [] else uri ∈ s.uris := by
  cases c with
  | added definitions =>
      have hlistings := listings_addAll s definitions
      simp [Change.apply, Change.reindexes, uris, hlistings]
  | updated uri' definitions =>
      have hlistings : (s.update uri' definitions).uris =
          (definitions.foldl (declare uri') (s.removeUri uri').1).uris := by
        unfold update uris
        rw [listings_resolveNamespaces]
      simp only [Change.apply, Change.reindexes, Change.definitions, hlistings,
        mem_uris_foldl_declare_iff hc, mem_uris_removeUri_iff]
      by_cases h : uri' = uri <;> simp [h]
  | removed uri' =>
      simp only [Change.apply, Change.reindexes, Change.definitions, mem_uris_removeUri_iff]
      by_cases h : uri' = uri <;> simp [h]

end OneChange

/-! ## Many changes -/

section ManyChanges

variable {changes : List Change}

theorem consistent_replay (h : ∀ c ∈ changes, c.Regular) : Consistent (replay changes) := by
  refine List.foldlRecOn changes Change.apply (motive := Consistent) Consistent.empty ?_
  intro s hs c hc
  exact hs.apply (h c hc)

/-- A document owns what stands under a name when the last change that declared the name is also the
last one about the document. -/
theorem owner?_replay_iff (h : ∀ c ∈ changes, c.Regular) (uri name : String) :
    (replay changes).owner? name = some uri ↔
      ∃ c, last? (Change.declares name) changes = some c ∧
        last? (Change.reindexes uri) changes = some c := by
  induction changes using List.reverseRecOn with
  | nil => simp [replay, owner?, find?, Assoc.find?, last?]
  | append_singleton changes c ih =>
      have hearlier : ∀ c' ∈ changes, c'.Regular := fun c' hc' =>
        h c' (List.mem_append_left _ hc')
      have hlast : c.Regular := h c (List.mem_append_right _ List.mem_cons_self)
      rw [replay_concat, owner?_apply_iff (consistent_replay hearlier) hlast, last?_concat,
        last?_concat]
      -- The change counts as the last one of both sorts, of one of them, or of neither.
      cases hdeclares : c.declares name with
      | true =>
          cases hreindexes : c.reindexes uri with
          | true => simp
          | false =>
              have hother : last? (Change.reindexes uri) changes ≠ some c := by
                intro hc
                rw [last?_some hc] at hreindexes
                cases hreindexes
              simpa using hother
      | false =>
          cases hreindexes : c.reindexes uri with
          | true =>
              have hother : last? (Change.declares name) changes ≠ some c := by
                intro hc
                rw [last?_some hc] at hdeclares
                cases hdeclares
              simpa using hother
          | false => simpa using ih hearlier

/-- A document is listed when it declared something in the last change about it. -/
theorem mem_uris_replay_iff (h : ∀ c ∈ changes, c.Regular) (uri : String) :
    uri ∈ (replay changes).uris ↔
      ∃ c, last? (Change.reindexes uri) changes = some c ∧ c.definitions ≠ [] := by
  induction changes using List.reverseRecOn with
  | nil => simp [replay, uris, Assoc.keys, last?]
  | append_singleton changes c ih =>
      have hearlier : ∀ c' ∈ changes, c'.Regular := fun c' hc' =>
        h c' (List.mem_append_left _ hc')
      have hlast : c.Regular := h c (List.mem_append_right _ List.mem_cons_self)
      rw [replay_concat, mem_uris_apply_iff hlast, last?_concat]
      split
      · simp
      · exact ih hearlier

/-- What is stored is found under some name. -/
theorem exists_owner?_iff (h : Consistent (replay changes)) {uri : String} :
    (∃ d ∈ (replay changes).definitions, d.uri = some uri) ↔
      ∃ name, (replay changes).owner? name = some uri := by
  simp only [owner?_eq_some_iff]
  constructor
  · rintro ⟨d, hd, huri⟩
    rcases List.mem_map.1 hd with ⟨⟨name, e⟩, hentry, rfl⟩
    exact ⟨name, e, Assoc.find?_of_mem h.keys_nodup hentry, huri⟩
  · rintro ⟨name, d, hd, huri⟩
    exact ⟨d, mem_definitions_of_find? hd, huri⟩

/-- A document that owns something is listed.  A listed document owns something exactly when some
name was declared last in the last change about the document. -/
theorem uris_owner_iff (h : ∀ c ∈ changes, c.Regular) :
    (∀ d ∈ (replay changes).definitions, ∀ uri, d.uri = some uri → uri ∈ (replay changes).uris) ∧
      ∀ uri ∈ (replay changes).uris,
        ((∃ d ∈ (replay changes).definitions, d.uri = some uri) ↔
          ∃ name, last? (Change.declares name) changes = last? (Change.reindexes uri) changes) := by
  have hconsistent := consistent_replay h
  refine ⟨?_, ?_⟩
  · intro d hd uri huri
    rcases (exists_owner?_iff hconsistent).1 ⟨d, hd, huri⟩ with ⟨name, howner⟩
    rcases (owner?_replay_iff h uri name).1 howner with ⟨c, hdeclares, hreindexes⟩
    -- the change that declared the name is not empty
    apply (mem_uris_replay_iff h uri).2
    refine ⟨c, hreindexes, ?_⟩
    intro hempty
    have hsome := last?_some hdeclares
    simp [Change.declares, hempty] at hsome
  · intro uri hlisted
    rcases (mem_uris_replay_iff h uri).1 hlisted with ⟨c, hreindexes, -⟩
    rw [exists_owner?_iff hconsistent, hreindexes]
    apply exists_congr
    intro name
    rw [owner?_replay_iff h, hreindexes]
    constructor
    · rintro ⟨c', hdeclares, hsame⟩
      rwa [hsame]
    · intro hdeclares
      exact ⟨c, hdeclares, rfl⟩

end ManyChanges

/-- A constant that a document declares on its first line. -/
def declaredConstant (uri name : String) : Definition :=
  .ofConstant ⟨name, none, some ⟨⟨⟨1, 0⟩, ⟨1, 1⟩⟩, uri⟩⟩

/-- A document declares `Foo` and `Bar`, another one `Foo` after it. -/
def overlappingChanges : List Change :=
  [ .updated "file:///a.rb" (["Foo", "Bar"].map (declaredConstant "file:///a.rb")),
    .updated "file:///b.rb" [declaredConstant "file:///b.rb" "Foo"] ]

/-- The first document keeps `Bar`. -/
theorem overlapping_owner :
    (∀ c ∈ overlappingChanges, c.Regular) ∧
      "file:///a.rb" ∈ (replay overlappingChanges).uris ∧
      ∃ d ∈ (replay overlappingChanges).definitions, d.uri = some "file:///a.rb" := by
  have hregular : ∀ c ∈ overlappingChanges, c.Regular := by
    simp [overlappingChanges, Change.Regular, OwnedBy, declaredConstant, Definition.uri,
      Definition.location]
  have hlisted : "file:///a.rb" ∈ (replay overlappingChanges).uris := by decide
  exact ⟨hregular, hlisted,
    ((uris_owner_iff hregular).2 "file:///a.rb" hlisted).2 ⟨"Bar", by decide⟩⟩

/-- A document stays listed when another one has declared all its names since. -/
theorem not_uris_owner :
    ¬ ∀ changes : List Change, (∀ c ∈ changes, c.Regular) →
      ∀ uri ∈ (replay changes).uris, ∃ d ∈ (replay changes).definitions, d.uri = some uri := by
  intro howner
  let changes : List Change :=
    [ .updated "file:///a.rb" [declaredConstant "file:///a.rb" "Foo"],
      .updated "file:///b.rb" [declaredConstant "file:///b.rb" "Foo"] ]
  have hregular : ∀ c ∈ changes, c.Regular := by
    simp [changes, Change.Regular, OwnedBy, declaredConstant, Definition.uri, Definition.location]
  have hlisted : "file:///a.rb" ∈ (replay changes).uris := by decide
  -- The one definition there is belongs to the second document.
  have hnothing : ¬∃ d ∈ (replay changes).definitions, d.uri = some "file:///a.rb" := by decide
  exact hnothing (howner changes hregular "file:///a.rb" hlisted)

end Store
end RubyIndex
