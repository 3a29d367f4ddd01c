import RubyIndex.Store.Basic

/-!
# Looking up names in a changed store

What each operation on a store does to `find?` and to the lists of names.  The resolution of
references rewrites definitions in their place, so what it leaves alone is said up to the resolved
names.

* `lastNamed?`, the last definition of a name in a list, which is the one that counts;
* `Definition.outline`, a definition without the names its references were resolved to;
* `Store.find?_removeUri`, which names go with a document;
* `Store.outline?_update` and `Store.find?_update_of_not_declared`, what stands under a name after
  a document was reindexed, and `Store.listing_update`, what is then listed.
-/

namespace RubyIndex

/-! ## Association lists -/

namespace Assoc

variable {α β : Type} [DecidableEq α]

/-- With distinct keys, an entry is what its key finds. -/
theorem find?_of_mem {key : α} {value : β} {a : Assoc α β} (hkeys : (keys a).Nodup)
    (h : (key, value) ∈ a) : find? key a = some value := by
  induction a with
  | nil => simp at h
  | cons entry rest ih =>
      rcases entry with ⟨k, v⟩
      have hcons : k ∉ keys rest ∧ (keys rest).Nodup := List.nodup_cons.1 hkeys
      rcases List.mem_cons.1 h with heq | hrest
      · cases heq
        simp [find?]
      · -- the key stands further on, so it is not that of the first entry
        have hne : k ≠ key := by
          intro heq
          exact hcons.1 (heq ▸ List.mem_map.2 ⟨(key, value), hrest, rfl⟩)
        simpa [find?, hne] using ih hcons.2 hrest

theorem mem_of_find? {key : α} {value : β} {a : Assoc α β} (h : find? key a = some value) :
    (key, value) ∈ a := by
  induction a with
  | nil => simp [find?] at h
  | cons entry rest ih =>
      rcases entry with ⟨k, v⟩
      simp only [find?] at h
      split at h
      · rename_i hk
        cases h
        exact hk ▸ List.mem_cons_self
      · exact List.mem_cons_of_mem _ (ih h)

theorem isSome_find?_iff {key : α} {a : Assoc α β} : (find? key a).isSome ↔ key ∈ keys a := by
  constructor
  · intro h
    rcases Option.isSome_iff_exists.1 h with ⟨value, hvalue⟩
    exact mem_keys_of_find? hvalue
  · intro h
    induction a with
    | nil => cases h
    | cons entry rest ih =>
        rcases entry with ⟨k, v⟩
        by_cases hk : k = key
        · simp [find?, hk]
        · rcases List.mem_cons.1 h with heq | hrest
          · exact absurd heq.symm hk
          · simpa [find?, hk] using ih hrest

theorem mem_keys_set {key k : α} {value : β} {a : Assoc α β} (h : k ∈ keys (set key value a)) :
    k = key ∨ k ∈ keys a := by
  induction a with
  | nil =>
      left
      simpa [set, keys] using h
  | cons entry rest ih =>
      rcases entry with ⟨k', v⟩
      by_cases hk : k' = key
      · have hcons : k = key ∨ k ∈ keys rest := by simpa [set, hk, keys] using h
        rcases hcons with heq | hrest
        · exact Or.inl heq
        · exact Or.inr (List.mem_cons_of_mem _ hrest)
      · have hcons : k = k' ∨ k ∈ keys (set key value rest) := by simpa [set, hk, keys] using h
        rcases hcons with rfl | hset
        · exact Or.inr List.mem_cons_self
        · rcases ih hset with heq | hrest
          · exact Or.inl heq
          · exact Or.inr (List.mem_cons_of_mem _ hrest)

theorem nodup_keys_set {key : α} {value : β} {a : Assoc α β} (h : (keys a).Nodup) :
    (keys (set key value a)).Nodup := by
  induction a with
  | nil => simp [set, keys]
  | cons entry rest ih =>
      rcases entry with ⟨k, v⟩
      have hcons : k ∉ keys rest ∧ (keys rest).Nodup := List.nodup_cons.1 h
      by_cases hk : k = key
      · -- the value changes in its place and the keys stay as they are
        simpa [set, keys, hk] using h
      · have hnew : k ∉ keys (set key value rest) := by
          intro hmem
          rcases mem_keys_set hmem with heq | hrest
          · exact hk heq
          · exact hcons.1 hrest
        simpa [set, hk, keys] using List.nodup_cons.2 ⟨hnew, ih hcons.2⟩

theorem nodup_keys_erase {key : α} {a : Assoc α β} (h : (keys a).Nodup) :
    (keys (erase key a)).Nodup :=
  h.sublist (List.filter_sublist.map Prod.fst)

theorem erase_erase (key : α) (a : Assoc α β) : erase key (erase key a) = erase key a := by
  simp [erase]

end Assoc

/-! ## Definitions -/

/-- The last definition of a name in a list. -/
def lastNamed? (definitions : List Definition) (name : String) : Option Definition :=
  definitions.reverse.find? fun d => d.qualifiedName = name

theorem lastNamed?_cons (d : Definition) (rest : List Definition) (name : String) :
    lastNamed? (d :: rest) name =
      (lastNamed? rest name).or (if name = d.qualifiedName then some d else none) := by
  unfold lastNamed?
  rw [List.reverse_cons, List.find?_append]
  by_cases h : name = d.qualifiedName
  · simp [h]
  · have h' : ¬ d.qualifiedName = name := fun e => h e.symm
    simp [h, h']

theorem lastNamed?_eq_none_iff {definitions : List Definition} {name : String} :
    lastNamed? definitions name = none ↔ name ∉ definitions.map Definition.qualifiedName := by
  simp [lastNamed?]

theorem exists_lastNamed?_iff {definitions : List Definition} {name : String} :
    (∃ last, lastNamed? definitions name = some last) ↔
      name ∈ definitions.map Definition.qualifiedName := by
  rw [← Option.ne_none_iff_exists', ne_eq, lastNamed?_eq_none_iff, Decidable.not_not]

theorem lastNamed?_eq_some {definitions : List Definition} {name : String} {d : Definition}
    (h : lastNamed? definitions name = some d) : d ∈ definitions ∧ d.qualifiedName = name := by
  have hmem := List.mem_of_find?_eq_some h
  have hname := List.find?_some h
  exact ⟨by simpa using hmem, by simpa using hname⟩

namespace Definition

/-- A definition without the names that its mixins and its superclass were resolved to. -/
def outline : Definition → Definition
  | ofModule m => ofModule { m with includes := [], prepends := [] }
  | ofClass c =>
      ofClass { c with base := { c.base with includes := [], prepends := [] }, superclass := none }
  | d => d

@[simp] theorem qualifiedName_outline (d : Definition) :
    d.outline.qualifiedName = d.qualifiedName := by
  cases d <;> rfl

@[simp] theorem uri_outline (d : Definition) : d.outline.uri = d.uri := by
  cases d <;> rfl

theorem qualifiedName_eq_of_outline_eq {d e : Definition} (h : d.outline = e.outline) :
    d.qualifiedName = e.qualifiedName := by
  simpa using congrArg qualifiedName h

theorem uri_eq_of_outline_eq {d e : Definition} (h : d.outline = e.outline) : d.uri = e.uri := by
  simpa using congrArg uri h

theorem uri_eq_none_of_location {d : Definition} (h : d.location = none) : d.uri = none := by
  simp [uri, h]

end Definition

namespace Store

/-- What is found is among the definitions. -/
theorem mem_definitions_of_find? {s : Store} {name : String} {d : Definition}
    (h : s.find? name = some d) : d ∈ s.definitions :=
  List.mem_map_of_mem (Assoc.mem_of_find? h)

/-! ## Adding -/

theorem find?_insert (s : Store) (d : Definition) (name : String) :
    (s.insert d).find? name = if name = d.qualifiedName then some d else s.find? name :=
  Assoc.find?_set d.qualifiedName name d s.entries

theorem find?_declare (uri : String) (s : Store) (d : Definition) (name : String) :
    (declare uri s d).find? name = if name = d.qualifiedName then some d else s.find? name :=
  find?_insert s d name

/-- Adding definitions one after the other, in whatever way, leaves the last one of each name. -/
theorem find?_foldl {add : Store → Definition → Store}
    (hadd : ∀ s d name, (add s d).find? name =
      if name = d.qualifiedName then some d else s.find? name)
    (definitions : List Definition) (s : Store) (name : String) :
    (definitions.foldl add s).find? name = (lastNamed? definitions name).or (s.find? name) := by
  induction definitions generalizing s with
  | nil => simp [lastNamed?]
  | cons d rest ih =>
      -- the head counts only where the rest has nothing of its name
      rw [List.foldl_cons, ih, hadd, lastNamed?_cons]
      by_cases h : name = d.qualifiedName <;> simp [h]

theorem find?_addAll (s : Store) (definitions : List Definition) (name : String) :
    (s.addAll definitions).find? name = (lastNamed? definitions name).or (s.find? name) :=
  find?_foldl find?_insert definitions s name

/-- A name that none of the added definitions bears leads where it did. -/
theorem find?_addAll_of_not_declared {definitions : List Definition} {name : String}
    (h : name ∉ definitions.map Definition.qualifiedName) (s : Store) :
    (s.addAll definitions).find? name = s.find? name := by
  rw [find?_addAll, lastNamed?_eq_none_iff.2 h, Option.none_or]

theorem listings_addAll (s : Store) (definitions : List Definition) :
    (s.addAll definitions).listings = s.listings := by
  refine List.foldlRecOn definitions insert (motive := fun s' => s'.listings = s.listings) rfl ?_
  intro s' hs' d _
  exact hs'

theorem listing_list (s : Store) (uri uri' name : String) :
    (s.list uri name).listing uri' =
      if uri' = uri then s.listing uri ++ [name] else s.listing uri' := by
  unfold list listing
  rw [Assoc.find?_set]
  split <;> rfl

theorem listing_declare (uri uri' : String) (s : Store) (d : Definition) :
    (declare uri s d).listing uri' =
      s.listing uri' ++ if d.uri.getD uri = uri' then [d.qualifiedName] else [] := by
  have hstep := listing_list (s.insert d) (d.uri.getD uri) uri' d.qualifiedName
  have hsame : (s.insert d).listing = s.listing := rfl
  rw [hsame] at hstep
  unfold declare
  rw [hstep]
  by_cases h : d.uri.getD uri = uri'
  · simp [h]
  · have h' : ¬ uri' = d.uri.getD uri := fun e => h e.symm
    simp [h, h']

/-- Every document that some definitions are declared for lists their names behind what it
listed. -/
theorem listing_foldl_declare (uri uri' : String) (definitions : List Definition) (s : Store) :
    (definitions.foldl (declare uri) s).listing uri' =
      s.listing uri' ++
        (definitions.filter fun d => d.uri.getD uri = uri').map Definition.qualifiedName := by
  induction definitions generalizing s with
  | nil => simp
  | cons d rest ih =>
      rw [List.foldl_cons, ih, listing_declare]
      by_cases h : d.uri.getD uri = uri' <;> simp [h]

/-! ## Removing -/

/-- Whether the document owns what stands under a name depends on that name alone. -/
theorem owns_congr {s s' : Store} {name : String} (h : s.find? name = s'.find? name)
    (uri : String) : s.owns uri name = s'.owns uri name := by
  simp [owns, h]

theorem find?_dropName (uri : String) (state : Store × Nat) (name name' : String) :
    (dropName uri state name).1.find? name' =
      if name' = name ∧ state.1.owns uri name = true then none else state.1.find? name' := by
  unfold dropName
  by_cases howns : state.1.owns uri name = true
  · simp only [howns, if_true, and_true]
    exact Assoc.find?_erase name name' state.1.entries
  · simp [howns]

theorem find?_foldl_dropName (uri name : String) (names : List String) (state : Store × Nat) :
    (names.foldl (dropName uri) state).1.find? name =
      if name ∈ names ∧ state.1.owns uri name = true then none else state.1.find? name := by
  induction names generalizing state with
  | nil => simp
  | cons head rest ih =>
      rw [List.foldl_cons, ih, find?_dropName]
      by_cases hdrop : name = head ∧ state.1.owns uri head = true
      · rcases hdrop with ⟨rfl, howns⟩
        simp [howns]
      · -- the head leaves the name alone, so the rest decides about it as before
        have hkept := find?_dropName uri state head name
        rw [if_neg hdrop] at hkept
        rw [owns_congr hkept uri, if_neg hdrop]
        by_cases hhead : name = head
        · subst hhead
          have howns : state.1.owns uri name = false := by simpa using hdrop
          simp [howns]
        · simp [hhead]

/-- With a document go the names on its list that no other document has declared since. -/
theorem find?_removeUri (s : Store) (uri name : String) :
    (s.removeUri uri).1.find? name =
      if name ∈ s.listing uri ∧ s.owns uri name = true then none else s.find? name :=
  find?_foldl_dropName uri name (s.listing uri) _

theorem listings_dropName (uri : String) (state : Store × Nat) (name : String) :
    (dropName uri state name).1.listings = state.1.listings := by
  unfold dropName
  split <;> rfl

theorem listings_removeUri (s : Store) (uri : String) :
    (s.removeUri uri).1.listings = s.listings.erase uri := by
  refine List.foldlRecOn (s.listing uri) (dropName uri)
    (motive := fun state => state.1.listings = s.listings.erase uri) ?_ ?_
  · rfl
  · intro state hstate name _
    exact (listings_dropName uri state name).trans hstate

theorem listing_removeUri (s : Store) (uri uri' : String) :
    (s.removeUri uri).1.listing uri' = if uri' = uri then [] else s.listing uri' := by
  unfold listing
  rw [listings_removeUri, Assoc.find?_erase]
  split <;> rfl

/-! ## Resolving -/

/-- What stands under a name, up to the names that were resolved. -/
def outline? (s : Store) (name : String) : Option Definition :=
  (s.find? name).map Definition.outline

theorem outline_resolveDefinition (s : Store) (name : String) (d : Definition) :
    (s.resolveDefinition name d).outline = d.outline := by
  cases d <;> rfl

theorem find?_resolveName (s : Store) (name name' : String) :
    (s.resolveName name).find? name' =
      if name' = name then (s.find? name').map (s.resolveDefinition name) else s.find? name' := by
  unfold resolveName
  cases hd : s.find? name with
  | none =>
      by_cases h : name' = name
      · subst h
        simp [hd]
      · simp [h]
  | some d =>
      refine (Assoc.find?_set name name' (s.resolveDefinition name d) s.entries).trans ?_
      by_cases h : name' = name
      · subst h
        simp [hd]
      · rw [if_neg h, if_neg h]
        rfl

theorem outline?_resolveName (s : Store) (name name' : String) :
    (s.resolveName name).outline? name' = s.outline? name' := by
  unfold outline?
  rw [find?_resolveName]
  split
  · rw [Option.map_map]
    congr 1
    funext d
    exact outline_resolveDefinition s name d
  · rfl

theorem listings_resolveName (s : Store) (name : String) :
    (s.resolveName name).listings = s.listings := by
  unfold resolveName
  split <;> rfl

theorem outline?_resolveNamespaces (s : Store) (names : List String) (name : String) :
    (s.resolveNamespaces names).outline? name = s.outline? name := by
  refine List.foldlRecOn names resolveName
    (motive := fun s' => s'.outline? name = s.outline? name) rfl ?_
  intro s' hs' name' _
  exact (outline?_resolveName s' name' name).trans hs'

theorem listings_resolveNamespaces (s : Store) (names : List String) :
    (s.resolveNamespaces names).listings = s.listings := by
  refine List.foldlRecOn names resolveName (motive := fun s' => s'.listings = s.listings) rfl ?_
  intro s' hs' name' _
  exact (listings_resolveName s' name').trans hs'

theorem find?_resolveNamespaces_of_not_mem {names : List String} {name : String}
    (h : name ∉ names) (s : Store) :
    (s.resolveNamespaces names).find? name = s.find? name := by
  refine List.foldlRecOn names resolveName
    (motive := fun s' => s'.find? name = s.find? name) rfl ?_
  intro s' hs' name' hname'
  -- each name that is resolved is another one
  have hne : name ≠ name' := fun e => h (e ▸ hname')
  rw [find?_resolveName, if_neg hne]
  exact hs'

/-! ## Reindexing -/

/-- What a document does not declare is only touched by the removal. -/
theorem find?_update_of_not_declared {definitions : List Definition} {name : String}
    (h : name ∉ definitions.map Definition.qualifiedName) (s : Store) (uri : String) :
    (s.update uri definitions).find? name = (s.removeUri uri).1.find? name := by
  -- Only modules and classes are resolved, and they are declared too.
  have hspaces :
      name ∉ (definitions.filter fun d => d.module?.isSome).map Definition.qualifiedName := by
    intro hmem
    exact h ((List.filter_sublist.map _).subset hmem)
  unfold update
  rw [find?_resolveNamespaces_of_not_mem hspaces, find?_foldl (find?_declare uri),
    lastNamed?_eq_none_iff.2 h]
  rfl

/-- What a document declares last under a name stands there, up to the resolved names. -/
theorem outline?_update (s : Store) (uri : String) (definitions : List Definition)
    (name : String) :
    (s.update uri definitions).outline? name =
      ((lastNamed? definitions name).or ((s.removeUri uri).1.find? name)).map
        Definition.outline := by
  unfold update
  rw [outline?_resolveNamespaces]
  unfold outline?
  rw [find?_foldl (find?_declare uri)]

/-- What a document declares last under a name is found there. -/
theorem find?_update_of_declared {definitions : List Definition} {name : String}
    {last : Definition} (h : lastNamed? definitions name = some last) (s : Store) (uri : String) :
    ∃ d, (s.update uri definitions).find? name = some d ∧ d.outline = last.outline := by
  have hout := outline?_update s uri definitions name
  rw [h] at hout
  simpa [outline?] using hout

/-- What is found after a document was reindexed is either declared by it or was left by the
removal. -/
theorem find?_update_eq_some {s : Store} {uri name : String} {definitions : List Definition}
    {d : Definition} (h : (s.update uri definitions).find? name = some d) :
    (∃ last, lastNamed? definitions name = some last ∧ d.outline = last.outline) ∨
      (lastNamed? definitions name = none ∧ (s.removeUri uri).1.find? name = some d) := by
  cases hlast : lastNamed? definitions name with
  | none =>
      right
      rw [find?_update_of_not_declared (lastNamed?_eq_none_iff.1 hlast)] at h
      exact ⟨rfl, h⟩
  | some last =>
      left
      rcases find?_update_of_declared hlast s uri with ⟨d', hd', hout⟩
      rw [h] at hd'
      cases hd'
      exact ⟨last, rfl, hout⟩

theorem listing_update (s : Store) (uri uri' : String) (definitions : List Definition) :
    (s.update uri definitions).listing uri' =
      (s.removeUri uri).1.listing uri' ++
        (definitions.filter fun d => d.uri.getD uri = uri').map Definition.qualifiedName := by
  -- resolving leaves the lists alone
  have hsame : (s.update uri definitions).listing uri' =
      (definitions.foldl (declare uri) (s.removeUri uri).1).listing uri' := by
    unfold update listing
    rw [listings_resolveNamespaces]
  rw [hsame, listing_foldl_declare]

end Store
end RubyIndex
