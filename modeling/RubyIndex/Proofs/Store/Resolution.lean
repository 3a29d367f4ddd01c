import RubyIndex.Proofs.Store.Lookup

/-!
# Resolved references

Reindexing a document resolves the references of its modules and classes one definition after the
other, in the store that it changes on the way.  Only the names that are taken matter to a
resolution, and those stay the same, so the outcome is that of resolving each definition once in the
store at the end.

* `Definition.candidates`, the names that decide what the references of a definition stand for;
* `Store.resolveDefinition_congr`, the resolution looks at nothing else;
* `Store.find?_resolveNamespaces`, what the pass leaves under a name;
* `Store.find?_update`, what a reindexed document leaves there.
-/

namespace RubyIndex

namespace Definition

/-- The references that a definition is written with: the mixins of a module or class, and the
superclass of a class. -/
def references : Definition → List Reference
  | ofModule m => m.writtenIncludes ++ m.writtenPrepends
  | ofClass c => c.base.writtenIncludes ++ c.base.writtenPrepends ++ c.writtenSuperclass.toList
  | _ => []

/-- All names that a reference of a definition may stand for. -/
def candidates (d : Definition) : List String :=
  d.references.flatMap Reference.candidates

theorem candidates_subset {d : Definition} {r : Reference} (h : r ∈ d.references) :
    ∀ name ∈ r.candidates, name ∈ d.candidates := by
  intro name hname
  exact List.mem_flatMap.2 ⟨r, h, hname⟩

end Definition

namespace Store

/-! ## What a resolution looks at -/

/-- The same of some names are taken in two stores. -/
def SameTaken (s s' : Store) (names : List String) : Prop :=
  ∀ name ∈ names, (s.find? name).isSome = (s'.find? name).isSome

variable {s s' : Store}

theorem resolve_congr {r : Reference} (h : SameTaken s s' r.candidates) :
    s.resolve r = s'.resolve r := by
  have hfirst : (r.candidates.find? fun name => (s.find? name).isSome) =
      r.candidates.find? fun name => (s'.find? name).isSome := by
    rw [← List.head?_filter, ← List.head?_filter, List.filter_congr h]
  unfold resolve
  rw [hfirst]

theorem resolveList_congr {written : List Reference}
    (h : ∀ r ∈ written, SameTaken s s' r.candidates) (resolved : List String) :
    s.resolveList written resolved = s'.resolveList written resolved := by
  have hmap : written.map s.resolve = written.map s'.resolve :=
    List.map_congr_left fun r hr => resolve_congr (h r hr)
  unfold resolveList
  rw [hmap]

theorem resolveModule_congr {m : Module}
    (h : ∀ r ∈ m.writtenIncludes ++ m.writtenPrepends, SameTaken s s' r.candidates) :
    s.resolveModule m = s'.resolveModule m := by
  rcases List.forall_mem_append.1 h with ⟨hincludes, hprepends⟩
  unfold resolveModule
  rw [resolveList_congr hincludes, resolveList_congr hprepends]

theorem resolveSuperclass_congr {c : Class}
    (h : ∀ r ∈ c.writtenSuperclass.toList, SameTaken s s' r.candidates) (name : String) :
    s.resolveSuperclass name c = s'.resolveSuperclass name c := by
  unfold resolveSuperclass
  cases hwritten : c.writtenSuperclass with
  | none => cases c.superclass <;> rfl
  | some r =>
      have hr : r ∈ c.writtenSuperclass.toList := by simp [hwritten]
      simp only [resolve_congr (h r hr)]

/-- What a definition is resolved to depends on which of its candidates are taken. -/
theorem resolveDefinition_congr {d : Definition} (h : SameTaken s s' d.candidates)
    (name : String) : s.resolveDefinition name d = s'.resolveDefinition name d := by
  have hreferences : ∀ r ∈ d.references, SameTaken s s' r.candidates := by
    intro r hr candidate hcandidate
    exact h candidate (Definition.candidates_subset hr candidate hcandidate)
  cases d with
  | ofConstant c => rfl
  | ofMethod m => rfl
  | ofModule m =>
      simp only [resolveDefinition]
      rw [resolveModule_congr hreferences]
  | ofClass c =>
      rcases List.forall_mem_append.1 hreferences with ⟨hmixins, hsuperclass⟩
      simp only [resolveDefinition]
      rw [resolveModule_congr hmixins, resolveSuperclass_congr hsuperclass]

/-! ## Resolving again -/

theorem resolveList_resolveList (written : List Reference) (resolved : List String) :
    s.resolveList written (s.resolveList written resolved) = s.resolveList written resolved := by
  unfold resolveList
  split <;> rfl

theorem resolveModule_resolveModule (m : Module) :
    s.resolveModule (s.resolveModule m) = s.resolveModule m := by
  simp only [resolveModule, resolveList_resolveList]

/-- Without a written superclass, a class keeps the one it has once it has one. -/
theorem resolveSuperclass_resolved (name : String) (c : Class) (base : Module) :
    s.resolveSuperclass name
        { c with base := base, superclass := s.resolveSuperclass name c } =
      s.resolveSuperclass name c := by
  cases hwritten : c.writtenSuperclass with
  | some r => simp [resolveSuperclass, hwritten]
  | none =>
      cases hsuper : c.superclass with
      | some superclass => simp [resolveSuperclass, hwritten, hsuper]
      | none =>
          cases himplicit : implicitSuperclass name with
          | none => simp [resolveSuperclass, hwritten, hsuper, himplicit]
          | some superclass => simp [resolveSuperclass, hwritten, hsuper, himplicit]

theorem resolveDefinition_resolveDefinition (name : String) (d : Definition) :
    s.resolveDefinition name (s.resolveDefinition name d) = s.resolveDefinition name d := by
  cases d with
  | ofConstant c => rfl
  | ofMethod m => rfl
  | ofModule m =>
      simp only [resolveDefinition]
      rw [resolveModule_resolveModule]
  | ofClass c =>
      simp only [resolveDefinition]
      rw [resolveModule_resolveModule, resolveSuperclass_resolved]

/-! ## The pass -/

theorem isSome_find?_resolveName (s : Store) (name name' : String) :
    ((s.resolveName name).find? name').isSome = (s.find? name').isSome := by
  rw [find?_resolveName]
  split
  · exact Option.isSome_map
  · rfl

/-- A definition is resolved in the same way before another name was resolved and after. -/
theorem resolveDefinition_resolveName (s : Store) (name name' : String) :
    (s.resolveName name).resolveDefinition name' = s.resolveDefinition name' := by
  funext d
  refine resolveDefinition_congr ?_ name'
  intro candidate _
  exact isSome_find?_resolveName s name candidate

/-- The pass resolves what stands under its names, each of them as in the store it starts from. -/
theorem find?_resolveNamespaces (s : Store) (names : List String) (name : String) :
    (s.resolveNamespaces names).find? name =
      if name ∈ names then (s.find? name).map (s.resolveDefinition name) else s.find? name := by
  induction names generalizing s with
  | nil => simp [resolveNamespaces]
  | cons head rest ih =>
      have hstep : s.resolveNamespaces (head :: rest) =
          (s.resolveName head).resolveNamespaces rest := rfl
      rw [hstep, ih, resolveDefinition_resolveName, find?_resolveName]
      by_cases hhead : name = head
      · subst hhead
        by_cases hrest : name ∈ rest
        · -- the name comes again, which changes nothing
          have hagain : s.resolveDefinition name ∘ s.resolveDefinition name =
              s.resolveDefinition name :=
            funext (resolveDefinition_resolveDefinition name)
          simp [hrest, Option.map_map, hagain]
        · simp [hrest]
      · simp [hhead]

theorem isSome_find?_resolveNamespaces (s : Store) (names : List String) (name : String) :
    ((s.resolveNamespaces names).find? name).isSome = (s.find? name).isSome := by
  rw [find?_resolveNamespaces]
  split
  · exact Option.isSome_map
  · rfl

/-! ## Reindexing -/

/-- Only modules and classes have anything to resolve. -/
theorem resolveDefinition_of_no_module (s : Store) {d : Definition} (h : d.module? = none)
    (name : String) : s.resolveDefinition name d = d := by
  cases d with
  | ofConstant c => rfl
  | ofMethod m => rfl
  | ofModule m => cases h
  | ofClass c => cases h

/-- A reindexed document leaves under a name what it declares last, resolved in the store at the
end, and under a name it does not declare what the removal has left there. -/
theorem find?_update (s : Store) (uri : String) (definitions : List Definition) (name : String) :
    (s.update uri definitions).find? name =
      match lastNamed? definitions name with
      | some last => some ((s.update uri definitions).resolveDefinition name last)
      | none => (s.removeUri uri).1.find? name := by
  cases hlast : lastNamed? definitions name with
  | none => exact find?_update_of_not_declared (lastNamed?_eq_none_iff.1 hlast) s uri
  | some last =>
      let added := definitions.foldl (declare uri) (s.removeUri uri).1
      let spaces := (definitions.filter fun d => d.module?.isSome).map Definition.qualifiedName
      have hadded : added.find? name = some last := by
        rw [find?_foldl (find?_declare uri), hlast]
        rfl
      -- the pass leaves the names alone that the store at the end is asked for
      have hfinal : (added.resolveNamespaces spaces).resolveDefinition name last =
          added.resolveDefinition name last :=
        resolveDefinition_congr (fun c _ => isSome_find?_resolveNamespaces added spaces c) name
      show (added.resolveNamespaces spaces).find? name =
        some ((added.resolveNamespaces spaces).resolveDefinition name last)
      rw [find?_resolveNamespaces, hadded, hfinal]
      split
      · rfl
      · -- a name the pass leaves out belongs to no module or class
        rename_i hnot
        have hnone : last.module? = none := by
          refine Option.not_isSome_iff_eq_none.1 ?_
          intro hmodule
          rcases lastNamed?_eq_some hlast with ⟨hmem, hname⟩
          exact hnot (List.mem_map.2 ⟨last, List.mem_filter.2 ⟨hmem, hmodule⟩, hname⟩)
        rw [resolveDefinition_of_no_module added hnone]

end Store
end RubyIndex
