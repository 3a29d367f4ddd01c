import Mathlib.Data.List.Chain
import Mathlib.Data.List.Perm.Subperm
import RubyIndex.Proofs.Store.Dispatch

/-!
# Bases and inheritance

The bases of a definition are found by following the names of superclasses through the store.  The
links are arbitrary: they may lead to what is no class, to nothing, or around in a circle.  Whatever
they are, the walk is the one list of stored definitions that starts at the definition, goes from
each to the superclass it names, meets no name twice, and cannot be continued.

* `Store.IsBases`, what a list of bases is, said without the walk;
* `Store.Climb`, the steps of the walk, from which `Store.isBases_bases` follows;
* `Store.IsBases.unique`, a definition has no other bases;
* `Store.chainOf_eq_expanded_bases`, the ancestors of a name are its bases among their mixins;
* `Store.findMethod?_eq_own_or_inherited`, a class has the methods of its superclass, save those
  that are found on the class and its own mixins.

The last one is not read off the walk, which is cut at other places when it starts at another class:
it holds since a class in front of the bases of its superclass makes up its own bases.
-/

namespace RubyIndex

namespace Definition

/-- The names of the prepended mixins; only modules and classes have any. -/
def prepends (d : Definition) : List String :=
  d.module?.elim [] Module.prepends

/-- The names of the included mixins; only modules and classes have any. -/
def includes (d : Definition) : List String :=
  d.module?.elim [] Module.includes

end Definition

namespace Store

/-! ## Superclasses -/

/-- Every definition stands under its own name. -/
def Keyed (s : Store) : Prop :=
  ∀ entry ∈ s.entries, entry.2.qualifiedName = entry.1

instance (s : Store) : Decidable s.Keyed :=
  inferInstanceAs (Decidable (∀ entry ∈ s.entries, entry.2.qualifiedName = entry.1))

theorem Keyed.name_eq {s : Store} (hs : s.Keyed) {name : String} {d : Definition}
    (h : s.find? name = some d) : d.qualifiedName = name :=
  hs (name, d) (Assoc.mem_of_find? h)

/-- What stands under the name of the superclass. -/
def superclass? (s : Store) (d : Definition) : Option Definition :=
  (superclassName? d).bind s.find?

/-- Why there is no way up from a definition when some names were passed. -/
inductive Stops (s : Store) (passed : List String) (d : Definition) : Prop
  | unnamed : superclassName? d = none → Stops s passed d
  | missing {name : String} : superclassName? d = some name → s.find? name = none →
      Stops s passed d
  | repeated {name : String} : superclassName? d = some name → name ∈ passed → Stops s passed d

/-- A definition with all its superclasses, as far as they are stored and not met before. -/
structure IsBases (s : Store) (d : Definition) (bases : List Definition) : Prop where
  head_eq : bases.head? = some d
  linked : bases.IsChain fun base above => s.superclass? base = some above
  distinct : (bases.map Definition.qualifiedName).Nodup
  maximal : ∀ last ∈ bases.getLast?, Stops s (bases.map Definition.qualifiedName) last

variable {s : Store}

theorem Stops.mono {passed passed' : List String} {d : Definition} (h : Stops s passed d)
    (hsub : passed ⊆ passed') : Stops s passed' d := by
  cases h with
  | unnamed hnone => exact .unnamed hnone
  | missing hname hnone => exact .missing hname hnone
  | repeated hname hmem => exact .repeated hname (hsub hmem)

/-- Where the walk stops, a superclass that is stored was passed. -/
theorem Stops.mem_of_superclass? (hs : s.Keyed) {passed : List String} {d above : Definition}
    (h : Stops s passed d) (habove : s.superclass? d = some above) :
    above.qualifiedName ∈ passed := by
  rcases Option.bind_eq_some_iff.1 habove with ⟨name, hname, hfound⟩
  cases h with
  | unnamed hnone => simp [hname] at hnone
  | missing hname' hnone =>
      cases hname.symm.trans hname'
      simp [hfound] at hnone
  | repeated hname' hmem =>
      cases hname.symm.trans hname'
      rw [hs.name_eq hfound]
      exact hmem

/-! ## The walk -/

/-- The walk up from a definition, when some names were passed, meets these definitions. -/
inductive Climb (s : Store) : List String → Definition → List Definition → Prop
  | stop {seen : List String} {d : Definition} : Stops s seen d → Climb s seen d []
  | step {seen : List String} {d above : Definition} {rest : List Definition} :
      s.superclass? d = some above → above.qualifiedName ∉ seen →
        Climb s (above.qualifiedName :: seen) above rest → Climb s seen d (above :: rest)

theorem exists_climb (hs : s.Keyed) (seen : List String) (d : Definition) :
    ∃ above, s.basesFrom seen d = d :: above ∧ Climb s seen d above := by
  fun_induction basesFrom s seen d with
  | case1 seen d hname => exact ⟨[], rfl, .stop (.unnamed hname)⟩
  | case2 seen d name hname hnone => exact ⟨[], rfl, .stop (.missing hname hnone)⟩
  | case3 seen d name hname superclass hfound hseen =>
      exact ⟨[], rfl, .stop (.repeated hname hseen)⟩
  | case4 seen d name hname superclass hfound hseen ih =>
      rcases ih with ⟨rest, hrest, hclimb⟩
      -- the walk remembers the name it looked up, which is that of what it found
      have hsuper : s.superclass? d = some superclass :=
        Option.bind_eq_some_iff.2 ⟨name, hname, hfound⟩
      have heq : superclass.qualifiedName = name := hs.name_eq hfound
      refine ⟨superclass :: rest, by rw [hrest], .step hsuper ?_ ?_⟩
      · rw [heq]
        exact hseen
      · rw [heq]
        exact hclimb

namespace Climb

variable {seen : List String} {d : Definition} {above : List Definition}

theorem linked (h : Climb s seen d above) :
    (d :: above).IsChain fun base above => s.superclass? base = some above := by
  induction h with
  | stop _ => exact List.isChain_singleton _
  | step hsuper _ _ ih => exact List.isChain_cons_cons.2 ⟨hsuper, ih⟩

theorem stored (hs : s.Keyed) (h : Climb s seen d above) :
    ∀ base ∈ above, s.find? base.qualifiedName = some base := by
  induction h with
  | stop _ => simp
  | step hsuper _ _ ih =>
      rcases Option.bind_eq_some_iff.1 hsuper with ⟨name, _, hfound⟩
      refine List.forall_mem_cons.2 ⟨?_, ih⟩
      rw [hs.name_eq hfound]
      exact hfound

/-- Each step passes a new name, so that the names passed in the end, last one first, are
distinct. -/
theorem distinct (h : Climb s seen d above) (hseen : seen.Nodup) :
    ((above.map Definition.qualifiedName).reverse ++ seen).Nodup := by
  induction h with
  | stop _ => simpa using hseen
  | step _ hnew _ ih =>
      have hpassed := ih (List.nodup_cons.2 ⟨hnew, hseen⟩)
      simpa using hpassed

theorem stops (h : Climb s seen d above) :
    ∀ last ∈ (d :: above).getLast?,
      Stops s ((above.map Definition.qualifiedName).reverse ++ seen) last := by
  induction h with
  | stop hstops => simpa using hstops
  | step _ _ _ ih =>
      intro last hlast
      rw [List.getLast?_cons_cons] at hlast
      simpa using ih last hlast

end Climb

theorem isBases_bases (hs : s.Keyed) (d : Definition) : IsBases s d (s.bases d) := by
  rcases exists_climb hs [d.qualifiedName] d with ⟨above, hbases, hclimb⟩
  -- The names passed in the end are those of the bases, last one first.
  have hpassed : (above.map Definition.qualifiedName).reverse ++ [d.qualifiedName] =
      ((d :: above).map Definition.qualifiedName).reverse := by simp
  have hdistinct := hclimb.distinct (List.nodup_singleton _)
  have hstops := hclimb.stops
  rw [hpassed] at hdistinct hstops
  unfold bases
  rw [hbases]
  refine ⟨rfl, hclimb.linked, List.nodup_reverse.1 hdistinct, ?_⟩
  intro last hlast
  exact (hstops last hlast).mono (List.reverse_subset.2 (List.Subset.refl _))

/-- The walk takes at most as many steps as there are definitions. -/
theorem length_bases_le (hs : s.Keyed) {name : String} {d : Definition}
    (hd : s.find? name = some d) : (s.bases d).length ≤ s.size := by
  rcases exists_climb hs [d.qualifiedName] d with ⟨above, hbases, hclimb⟩
  have hself : s.find? d.qualifiedName = some d := by
    rw [hs.name_eq hd]
    exact hd
  have hstored : ∀ base ∈ s.bases d, s.find? base.qualifiedName = some base := by
    unfold bases
    rw [hbases]
    exact List.forall_mem_cons.2 ⟨hself, hclimb.stored hs⟩
  have hsub : (s.bases d).map Definition.qualifiedName ⊆ s.entries.keys := by
    intro key hkey
    rcases List.mem_map.1 hkey with ⟨base, hbase, rfl⟩
    exact Assoc.mem_keys_of_find? (hstored base hbase)
  have hlength := (List.subperm_of_subset (isBases_bases hs d).distinct hsub).length_le
  simpa [Assoc.keys, size] using hlength

/-! ## One list of bases -/

/-- Where every element has at most one successor, of two lists that start alike one goes on from
the other. -/
theorem prefix_or_prefix_of_isChain {α : Type} {next : α → Option α} {l l' : List α}
    (h : l.IsChain fun a b => next a = some b) (h' : l'.IsChain fun a b => next a = some b)
    (hhead : l.head? = l'.head?) : l <+: l' ∨ l' <+: l := by
  induction l generalizing l' with
  | nil => exact Or.inl List.nil_prefix
  | cons a rest ih =>
      cases l' with
      | nil => exact Or.inr List.nil_prefix
      | cons a' rest' =>
          have ha : a = a' := by simpa using hhead
          subst ha
          rw [List.prefix_cons_inj, List.prefix_cons_inj]
          rcases List.isChain_cons.1 h with ⟨hfirst, hrest⟩
          rcases List.isChain_cons.1 h' with ⟨hfirst', hrest'⟩
          cases rest with
          | nil => exact Or.inl List.nil_prefix
          | cons b tail =>
              cases rest' with
              | nil => exact Or.inr List.nil_prefix
              | cons b' tail' =>
                  have hnext := hfirst b rfl
                  have hnext' := hfirst' b' rfl
                  exact ih hrest hrest' (hnext.symm.trans hnext')

namespace IsBases

variable {d : Definition} {bases bases' : List Definition}

/-- Bases cannot be continued to other bases: what came next would repeat a name. -/
theorem eq_of_continued (hs : s.Keyed) (h : IsBases s d bases) (h' : IsBases s d bases')
    (hmore : bases <+: bases') : bases = bases' := by
  rcases hmore with ⟨more, rfl⟩
  cases more with
  | nil => exact (List.append_nil _).symm
  | cons above rest =>
      exfalso
      rcases List.isChain_append.1 h'.linked with ⟨_, _, hjoin⟩
      -- the last of the shorter list, from which the longer one goes on
      have hne : bases ≠ [] := by
        intro hnil
        simpa [hnil] using h.head_eq
      have hlast := List.getLast?_eq_some_getLast hne
      have hnext := hjoin _ hlast above rfl
      have hmem := (h.maximal _ hlast).mem_of_superclass? hs hnext
      have hdistinct := h'.distinct
      rw [List.map_append, List.nodup_append] at hdistinct
      exact hdistinct.2.2 _ hmem _ List.mem_cons_self rfl

theorem unique (hs : s.Keyed) (h : IsBases s d bases) (h' : IsBases s d bases') :
    bases = bases' := by
  have hhead : bases.head? = bases'.head? := h.head_eq.trans h'.head_eq.symm
  rcases prefix_or_prefix_of_isChain h.linked h'.linked hhead with hshort | hlong
  · exact h.eq_of_continued hs h' hshort
  · exact (h'.eq_of_continued hs h hlong).symm

end IsBases

/-! ## Ancestors -/

/-- A base stands between its stored mixins, later ones first on either side. -/
theorem expand_eq (s : Store) (base : Definition) :
    s.expand base = (base.prepends.filterMap s.find?).reverse ++ [base] ++
      (base.includes.filterMap s.find?).reverse := by
  unfold expand Definition.prepends Definition.includes
  cases base.module? with
  | none => simp
  | some m => simp [mixins, List.filterMap_reverse]

/-- The ancestors of a stored name are its bases, each of them between its mixins.  The list of
bases is determined by what is stored and no longer than the store. -/
theorem chainOf_eq_expanded_bases (hs : s.Keyed) {name : String} {d : Definition}
    (hd : s.find? name = some d) :
    ∃ bases, IsBases s d bases ∧ (∀ other, IsBases s d other → other = bases) ∧
      bases.length ≤ s.size ∧
      s.chainOf name = bases.flatMap fun base =>
        (base.prepends.filterMap s.find?).reverse ++ [base] ++
          (base.includes.filterMap s.find?).reverse := by
  have hbases := isBases_bases hs d
  refine ⟨s.bases d, hbases, ?_, length_bases_le hs hd, ?_⟩
  · intro other hother
    exact hother.unique hs hbases
  · calc
      s.chainOf name = s.chain d := by simp [chainOf, hd]
      _ = _ := List.flatMap_congr fun base _ => s.expand_eq base

/-- A class below two classes that are each other's superclass; one of its mixins is not stored. -/
def leafClass : Class :=
  { base :=
      { constant := ⟨"Leaf", none, none⟩
        includes := ["Named", "Nowhere"]
        prepends := ["Traced"] }
    superclass := some "Left" }

def leftClass : Class :=
  { base := { constant := ⟨"Left", none, none⟩ }, superclass := some "Right" }

def lasso : Store :=
  let method (kind : MethodKind) (owner name : String) : Definition :=
    .ofMethod { kind := kind, name := name, owner := owner, signatures := [] }
  addAll {} [
    .ofModule { constant := ⟨"Traced", none, none⟩ },
    .ofModule { constant := ⟨"Named", none, none⟩, includes := ["Traced"] },
    .ofClass leafClass,
    .ofClass leftClass,
    .ofClass
      { base := { constant := ⟨"Right", none, none⟩, includes := ["Named"] }
        superclass := some "Left" },
    method .instanceMethod "Named" "name",
    method .instanceMethod "Left" "name",
    method .singletonMethod "Right" "build"]

theorem keyed_lasso : lasso.Keyed := by decide

theorem find?_lasso_leaf : lasso.find? "Leaf" = some (.ofClass leafClass) := by decide

theorem lasso_chainOf_leaf :
    lasso.Keyed ∧ lasso.find? "Leaf" = some (.ofClass leafClass) ∧
      (lasso.chainOf "Leaf").map Definition.qualifiedName =
        ["Traced", "Leaf", "Named", "Left", "Right", "Named"] ∧
      ∃ bases, IsBases lasso (.ofClass leafClass) bases ∧
        (∀ other, IsBases lasso (.ofClass leafClass) other → other = bases) ∧
        bases.length ≤ lasso.size ∧
        lasso.chainOf "Leaf" = bases.flatMap fun base =>
          (base.prepends.filterMap lasso.find?).reverse ++ [base] ++
            (base.includes.filterMap lasso.find?).reverse :=
  ⟨keyed_lasso, find?_lasso_leaf, by cbv, chainOf_eq_expanded_bases keyed_lasso find?_lasso_leaf⟩

/-! ## Inheritance -/

/-- A class that does not come again above its superclass stands in front of the bases of the
superclass. -/
theorem bases_eq_cons (hs : s.Keyed) {d above : Definition} (habove : s.superclass? d = some above)
    (hfree : d.qualifiedName ∉ (s.bases above).map Definition.qualifiedName) :
    s.bases d = d :: s.bases above := by
  have hupper := isBases_bases hs above
  -- the bases of the superclass with their first one set apart
  rcases List.head?_eq_some_iff.1 hupper.head_eq with ⟨rest, hrest⟩
  -- there is one list of bases, so it is enough that this is one
  refine (isBases_bases hs d).unique hs ⟨rfl, ?_, List.nodup_cons.2 ⟨hfree, hupper.distinct⟩, ?_⟩
  · refine List.isChain_cons.2 ⟨?_, hupper.linked⟩
    intro next hnext
    rw [hupper.head_eq] at hnext
    cases hnext
    exact habove
  · intro last hlast
    rw [hrest, List.getLast?_cons_cons, ← hrest] at hlast
    exact (hupper.maximal last hlast).mono (List.subset_cons_self _ _)

/-- The owners that are searched for a class before its superclass is: its stored mixins around the
class itself. -/
def ownNames (s : Store) (d : Definition) : List String :=
  (d.prepends.filter fun name => (s.find? name).isSome).reverse ++ [d.qualifiedName] ++
    (d.includes.filter fun name => (s.find? name).isSome).reverse

theorem map_qualifiedName_filterMap_find? (hs : s.Keyed) (names : List String) :
    (names.filterMap s.find?).map Definition.qualifiedName =
      names.filter fun name => (s.find? name).isSome := by
  induction names with
  | nil => rfl
  | cons name rest ih =>
      cases hname : s.find? name with
      | none => simp [hname, ih]
      | some d => simp [hname, ih, hs.name_eq hname]

theorem map_qualifiedName_expand (hs : s.Keyed) (d : Definition) :
    (s.expand d).map Definition.qualifiedName = s.ownNames d := by
  rw [expand_eq]
  simp only [List.map_append, List.map_reverse, map_qualifiedName_filterMap_find? hs, List.map_cons,
    List.map_nil]
  rfl

theorem chainNames_eq_append (hs : s.Keyed) {name superclass : String} {d above : Definition}
    (hd : s.find? name = some d) (hname : superclassName? d = some superclass)
    (habove : s.find? superclass = some above)
    (hfree : name ∉ (s.bases above).map Definition.qualifiedName) :
    s.chainNames name = s.ownNames d ++ s.chainNames superclass := by
  have hsuper : s.superclass? d = some above :=
    Option.bind_eq_some_iff.2 ⟨superclass, hname, habove⟩
  have hbases : s.bases d = d :: s.bases above := by
    refine bases_eq_cons hs hsuper ?_
    rw [hs.name_eq hd]
    exact hfree
  calc
    s.chainNames name = (s.chain d).map Definition.qualifiedName := by simp [chainNames, hd]
    _ = (s.expand d ++ s.chain above).map Definition.qualifiedName := by
        unfold chain
        rw [hbases, List.flatMap_cons]
    _ = s.ownNames d ++ s.chainNames superclass := by
        rw [List.map_append, map_qualifiedName_expand hs]
        simp [chainNames, habove]

/-- What is searched first is found first, for calls on values and on class objects alike. -/
theorem findMethod?_eq_or {name superclass : String} {own : List String}
    (h : s.chainNames name = own ++ s.chainNames superclass) (method : String)
    (kind : MethodKind) :
    s.findMethod? method name kind =
      (own.findSome? fun owner => s.find? (kind.qualify owner method)).or
        (s.findMethod? method superclass kind) := by
  have halong : s.findAlong? method name kind =
      (own.findSome? fun owner => s.find? (kind.qualify owner method)).or
        (s.findAlong? method superclass kind) := by
    unfold findAlong?
    rw [h, List.findSome?_append]
  cases kind with
  | instanceMethod => rw [findMethod?_instance, findMethod?_instance, halong]
  | singletonMethod =>
      rw [findMethod?_singleton, findMethod?_singleton, halong]
      simp only [Option.or_assoc]

/-- A method of a class is the first one found on the prepended mixins of the class, the class and
its included mixins, and if there is none it is that of the superclass.  So a class responds to all
that its superclass responds to, and in the same way unless one of these has a method of that
name. -/
theorem findMethod?_eq_own_or_inherited (hs : s.Keyed) {name superclass : String} {c : Class}
    {above : Definition} (hc : s.find? name = some (.ofClass c))
    (hname : c.superclass = some superclass) (habove : s.find? superclass = some above)
    (hfree : name ∉ (s.bases above).map Definition.qualifiedName) (method : String)
    (kind : MethodKind) :
    s.findMethod? method name kind =
        ((s.ownNames (.ofClass c)).findSome? fun owner => s.find? (kind.qualify owner method)).or
          (s.findMethod? method superclass kind) ∧
      ((s.findMethod? method superclass kind).isSome → (s.findMethod? method name kind).isSome) ∧
      ((∀ owner ∈ s.ownNames (.ofClass c), s.find? (kind.qualify owner method) = none) →
        s.findMethod? method name kind = s.findMethod? method superclass kind) := by
  have hlookup := findMethod?_eq_or (chainNames_eq_append hs hc hname habove hfree) method kind
  refine ⟨hlookup, ?_, ?_⟩
  · intro hfound
    rw [hlookup, Option.isSome_or, hfound, Bool.or_true]
  · intro hown
    rw [hlookup, List.findSome?_eq_none_iff.2 hown, Option.none_or]

/-- Below the circle, a mixin of the class takes the place of a method of the superclass, and what
is further up in the circle is inherited. -/
theorem lasso_leaf_inherits :
    lasso.Keyed ∧ lasso.find? "Leaf" = some (.ofClass leafClass) ∧
      lasso.find? "Left" = some (.ofClass leftClass) ∧
      "Leaf" ∉ (lasso.bases (.ofClass leftClass)).map Definition.qualifiedName ∧
      lasso.findMethod? "name" "Leaf" .instanceMethod = lasso.find? "Named#name" ∧
      lasso.findMethod? "name" "Left" .instanceMethod = lasso.find? "Left#name" ∧
      lasso.findMethod? "build" "Leaf" .singletonMethod =
        lasso.findMethod? "build" "Left" .singletonMethod ∧
      lasso.findMethod? "build" "Left" .singletonMethod = lasso.find? "Right.build" := by
  have hleft : lasso.find? "Left" = some (.ofClass leftClass) := by decide
  have hcircle : (lasso.bases (.ofClass leftClass)).map Definition.qualifiedName =
      ["Left", "Right"] := by cbv
  have hfree : "Leaf" ∉ (lasso.bases (.ofClass leftClass)).map Definition.qualifiedName := by
    rw [hcircle]
    decide
  have hinherits := findMethod?_eq_own_or_inherited keyed_lasso find?_lasso_leaf rfl hleft hfree
  refine ⟨keyed_lasso, find?_lasso_leaf, hleft, hfree, ?_, by cbv, ?_, by cbv⟩
  · rw [(hinherits "name" .instanceMethod).1]
    decide
  · exact (hinherits "build" .singletonMethod).2.2 (by decide)

end Store
end RubyIndex
