import RubyIndex.Proofs.Store.Consistency

/-!
# What goes with a document

When a document is removed, the names on its list are dropped one by one, those that it still owns.
A name may be listed several times, may be gone already, or may have been declared by another
document since.

* `Store.Built`, the stores that arise in any way;
* `Store.entries_dropName`, `Store.count_dropName`, what dropping one name does to the entries and
  to the count;
* `Store.entries_foldl_dropName`, `Store.count_foldl_dropName`, dropping names one after the other
  is one pass over the entries, and the count is that of the entries that went;
* `Store.removeUri_exact`, all that a removal does.
-/

namespace RubyIndex

/-! ## Association lists -/

namespace Assoc

variable {α β : Type} [DecidableEq α]

theorem erase_of_not_mem {key : α} {a : Assoc α β} (h : key ∉ keys a) : erase key a = a := by
  apply List.filter_eq_self.2
  intro entry hentry
  have hne : entry.1 ≠ key := fun heq => h (heq ▸ List.mem_map.2 ⟨entry, hentry, rfl⟩)
  simpa using hne

/-- Of distinct keys, one entry goes with a key that is there. -/
theorem length_erase {key : α} {a : Assoc α β} (hkeys : (keys a).Nodup) (h : key ∈ keys a) :
    (erase key a).length + 1 = a.length := by
  induction a with
  | nil => cases h
  | cons entry rest ih =>
      rcases entry with ⟨k, v⟩
      have hcons : k ∉ keys rest ∧ (keys rest).Nodup := List.nodup_cons.1 hkeys
      by_cases hk : k = key
      · -- the key stands here and, the keys being distinct, nowhere else
        subst hk
        have hhead : erase k ((k, v) :: rest) = erase k rest := by simp [erase]
        rw [hhead, erase_of_not_mem hcons.1, List.length_cons]
      · have hrest : key ∈ keys rest := by
          rcases List.mem_cons.1 h with heq | hmem
          · exact absurd heq.symm hk
          · exact hmem
        have hhead : erase key ((k, v) :: rest) = (k, v) :: erase key rest := by simp [erase, hk]
        rw [hhead, List.length_cons, List.length_cons, ih hcons.2 hrest]

end Assoc

namespace Store

/-- The stores that arise from the empty one, with definitions of any sort, located or not. -/
inductive Built : Store → Prop
  | empty : Built {}
  | addAll {s : Store} (definitions : List Definition) : Built s → Built (s.addAll definitions)
  | update {s : Store} (uri : String) (definitions : List Definition) :
      Built s → Built (s.update uri definitions)
  | removeUri {s : Store} (uri : String) : Built s → Built (s.removeUri uri).1

theorem keys_nodup_addAll {s : Store} (definitions : List Definition) (h : s.entries.keys.Nodup) :
    (s.addAll definitions).entries.keys.Nodup := by
  refine List.foldlRecOn definitions insert (motive := fun s' => s'.entries.keys.Nodup) h ?_
  intro s' hs' d _
  exact Assoc.nodup_keys_set hs'

theorem keys_nodup_update {s : Store} (uri : String) (definitions : List Definition)
    (h : s.entries.keys.Nodup) : (s.update uri definitions).entries.keys.Nodup := by
  -- the definitions that are added, then the names that are resolved
  have hadded : (definitions.foldl (declare uri) (s.removeUri uri).1).entries.keys.Nodup := by
    refine List.foldlRecOn definitions (declare uri) (motive := fun s' => s'.entries.keys.Nodup)
      (keys_nodup_removeUri uri h) ?_
    intro s' hs' d _
    exact Assoc.nodup_keys_set hs'
  refine List.foldlRecOn _ resolveName (motive := fun s' => s'.entries.keys.Nodup) hadded ?_
  intro s' hs' name _
  exact keys_nodup_resolveName name hs'

theorem Built.keys_nodup {s : Store} (h : Built s) : s.entries.keys.Nodup := by
  induction h with
  | empty => exact List.nodup_nil
  | addAll definitions _ ih => exact keys_nodup_addAll definitions ih
  | update uri definitions _ ih => exact keys_nodup_update uri definitions ih
  | removeUri uri _ ih => exact keys_nodup_removeUri uri ih

/-! ## One name -/

/-- A definition goes with a document unless it is located in another one. -/
def GoesWith (uri : String) (d : Definition) : Prop :=
  d.uri = none ∨ d.uri = some uri

instance (uri : String) (d : Definition) : Decidable (GoesWith uri d) :=
  inferInstanceAs (Decidable (_ ∨ _))

section Dropping

variable {state : Store × Nat} {uri : String}

/-- Which names a document owns can be told from the entries. -/
theorem owns_iff_goesWith {s : Store} (hkeys : s.entries.keys.Nodup) {entry : String × Definition}
    (hentry : entry ∈ s.entries) : s.owns uri entry.1 = true ↔ GoesWith uri entry.2 := by
  have hfind : s.find? entry.1 = some entry.2 := Assoc.find?_of_mem hkeys hentry
  cases huri : entry.2.uri with
  | none => simp [owns, hfind, GoesWith, huri]
  | some owner => simp [owns, hfind, GoesWith, huri]

theorem mem_keys_of_owns {s : Store} {name : String} (h : s.owns uri name = true) :
    name ∈ s.entries.keys := by
  unfold owns at h
  cases hfind : s.find? name with
  | none => simp [hfind] at h
  | some d => exact Assoc.mem_keys_of_find? hfind

/-- A name takes its entry along when the definition goes with the document. -/
theorem entries_dropName (hkeys : state.1.entries.keys.Nodup) (name : String) :
    (dropName uri state name).1.entries =
      state.1.entries.filter fun entry => ¬(entry.1 = name ∧ GoesWith uri entry.2) := by
  unfold dropName
  split
  · -- the document owns the name, so the one entry under it goes
    rename_i howns
    apply List.filter_congr
    intro entry hentry
    have hgoes : entry.1 = name → GoesWith uri entry.2 := by
      rintro rfl
      exact (owns_iff_goesWith hkeys hentry).1 howns
    by_cases hname : entry.1 = name
    · simp [hname, hgoes hname]
    · simp [hname]
  · -- nothing goes: an entry under the name belongs to another document
    rename_i howns
    symm
    apply List.filter_eq_self.2
    intro entry hentry
    have hstays : ¬(entry.1 = name ∧ GoesWith uri entry.2) := by
      rintro ⟨rfl, hgoes⟩
      exact howns ((owns_iff_goesWith hkeys hentry).2 hgoes)
    exact decide_eq_true hstays

/-- What is counted is missing from the entries. -/
theorem count_dropName (hkeys : state.1.entries.keys.Nodup) (name : String) :
    (dropName uri state name).2 + (dropName uri state name).1.size = state.2 + state.1.size := by
  unfold dropName
  split
  · rename_i howns
    have hlength := Assoc.length_erase hkeys (mem_keys_of_owns howns)
    simp only [size]
    omega
  · rfl

/-! ## Many names -/

/-- Names that are dropped one after the other take along what would go in one pass. -/
theorem entries_foldl_dropName (hkeys : state.1.entries.keys.Nodup) (names : List String) :
    (names.foldl (dropName uri) state).1.entries =
      state.1.entries.filter fun entry => ¬(entry.1 ∈ names ∧ GoesWith uri entry.2) := by
  induction names generalizing state with
  | nil =>
      symm
      apply List.filter_eq_self.2
      intro entry _
      simp
  | cons name names ih =>
      rw [List.foldl_cons, ih (keys_nodup_dropName name hkeys), entries_dropName hkeys,
        List.filter_filter]
      apply List.filter_congr
      intro entry _
      by_cases hgoes : GoesWith uri entry.2
      · simp [hgoes, Bool.and_comm]
      · simp [hgoes]

theorem count_foldl_dropName (hkeys : state.1.entries.keys.Nodup) (names : List String) :
    (names.foldl (dropName uri) state).2 + (names.foldl (dropName uri) state).1.size =
      state.2 + state.1.size := by
  induction names generalizing state with
  | nil => rfl
  | cons name names ih =>
      rw [List.foldl_cons, ih (keys_nodup_dropName name hkeys), count_dropName hkeys]

end Dropping

/-! ## Removals -/

/-- With the list of a document go exactly the entries that are on it and not located in another
document; the others keep their order, the other lists are left alone, and what is counted is what
is missing afterwards.  Removing the document again does nothing. -/
theorem removeUri_exact {s : Store} (h : Built s) (uri : String) :
    (s.removeUri uri).1.entries =
        s.entries.filter (fun entry =>
          ¬(entry.1 ∈ s.listing uri ∧ (entry.2.uri = none ∨ entry.2.uri = some uri))) ∧
      (s.removeUri uri).1.listings = s.listings.filter (fun listed => listed.1 ≠ uri) ∧
      (s.removeUri uri).2 + (s.removeUri uri).1.size = s.size ∧
      (s.removeUri uri).1.removeUri uri = ((s.removeUri uri).1, 0) := by
  have hkeys := h.keys_nodup
  refine ⟨entries_foldl_dropName hkeys _, listings_removeUri s uri, ?_, ?_⟩
  · calc (s.removeUri uri).2 + (s.removeUri uri).1.size
        = 0 + s.size := count_foldl_dropName hkeys (s.listing uri)
      _ = s.size := Nat.zero_add _
  · -- the list is gone, and with it all there is to do
    have hnothing : (s.removeUri uri).1.listing uri = [] := by
      rw [listing_removeUri, if_pos rfl]
    have hlistings : (s.removeUri uri).1.listings.erase uri = (s.removeUri uri).1.listings := by
      rw [listings_removeUri, Assoc.erase_erase]
    rw [removeUri, hnothing, hlistings, List.foldl_nil]

/-- A store in which a document lists `Bar` twice, a `Foo` that another document took over, and a
`Baz` that the library took over. -/
def crowdedStore : Store :=
  let span : Range := ⟨⟨1, 0⟩, ⟨1, 1⟩⟩
  let constant (name uri : String) : Definition := .ofConstant ⟨name, none, some ⟨span, uri⟩⟩
  let first : Store := update {} "file:///a.rb"
    (["Foo", "Bar", "Baz", "Bar"].map fun name => constant name "file:///a.rb")
  let second := first.update "file:///b.rb" [constant "Foo" "file:///b.rb"]
  second.addAll [.ofConstant ⟨"Baz", none, none⟩, .ofConstant ⟨"String", none, none⟩]

theorem built_crowdedStore : Built crowdedStore :=
  .addAll _ (.update _ _ (.update _ _ .empty))

/-- `Bar` goes once, `Baz` goes with it, and `Foo` stays. -/
theorem crowdedStore_removal :
    Built crowdedStore ∧
      (crowdedStore.removeUri "file:///a.rb").1.entries.keys = ["Foo", "String"] ∧
      (crowdedStore.removeUri "file:///a.rb").1.uris = ["file:///b.rb"] ∧
      (crowdedStore.removeUri "file:///a.rb").2 + 2 = crowdedStore.size ∧
      ((crowdedStore.removeUri "file:///a.rb").1.removeUri "file:///a.rb").2 = 0 := by
  rcases removeUri_exact built_crowdedStore "file:///a.rb" with
    ⟨hentries, hlistings, hcount, hagain⟩
  have hkeys : (crowdedStore.removeUri "file:///a.rb").1.entries.keys = ["Foo", "String"] := by
    rw [hentries]
    decide
  have hsize : (crowdedStore.removeUri "file:///a.rb").1.size = 2 := by
    have hlength := congrArg List.length hkeys
    simpa [Assoc.keys, size] using hlength
  refine ⟨built_crowdedStore, hkeys, ?_, ?_, ?_⟩
  · unfold uris
    rw [hlistings]
    decide
  · rw [← hcount, hsize]
  · rw [hagain]

end Store
end RubyIndex
