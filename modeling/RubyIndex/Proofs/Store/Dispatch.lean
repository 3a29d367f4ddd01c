import Mathlib.Data.List.Find
import Mathlib.Data.List.Nodup
import RubyIndex.Proofs.Name.Marker
import RubyIndex.Proofs.Store.Lookup
import RubyIndex.Proofs.Store.Ranking
import RubyIndex.Proofs.Text.Split

/-!
# Dispatch agrees with enumeration

Finding a method probes the owners of a chain one after the other for one qualified name.  Listing
the methods of a type goes the other way: it scans the whole store for methods of owners on the
chain and sorts them by the rank of their owner.  As long as a marker stands in a name only where a
method is set off from its owner, the method found is the first one listed.

* `Store.WellNamed`, the stores whose names are like that;
* `Store.findAlong?_eq_first`, along one chain, and `Store.dispatch_eq_first_listed`, for calls on
  values and on class objects.
-/

namespace RubyIndex

/-! ## Metaclasses -/

namespace Name

/-- Only a type that is written as a metaclass is read as one. -/
theorem eq_metaclass_of_target {type target : String} (h : metaclassTarget? type = some target) :
    type = metaclass target := by
  rcases Option.bind_eq_some_iff.1 h with ⟨rest, hrest, htarget⟩
  rcases Option.map_eq_some_iff.1 htarget with ⟨inner, hinner, rfl⟩
  have hlist : type.toList = "singleton<".toList ++ (inner ++ ['>']) := by
    rw [List.append_eq_of_isSuffixOf?_eq_some hinner, List.append_eq_of_isPrefixOf?_eq_some hrest]
  apply String.toList_inj.1
  simpa [metaclass] using hlist

theorem metaclassTarget?_eq_none {type : String} (h : ∀ target, type ≠ metaclass target) :
    metaclassTarget? type = none := by
  cases htarget : metaclassTarget? type with
  | none => rfl
  | some target => exact absurd (eq_metaclass_of_target htarget) (h target)

end Name

/-! ## Lists without their repetitions -/

section Repetitions

variable {α β : Type}

theorem findSome?_congr {f g : α → Option β} {l : List α} (h : ∀ a ∈ l, f a = g a) :
    l.findSome? f = l.findSome? g := by
  induction l with
  | nil => rfl
  | cons a rest ih =>
      rw [List.findSome?_cons, List.findSome?_cons, h a List.mem_cons_self,
        ih fun x hx => h x (List.mem_cons_of_mem _ hx)]

variable [DecidableEq α]

/-- Where nothing is found at `a`, the occurrences of `a` do not matter. -/
theorem findSome?_filter_ne {f : α → Option β} {a : α} (ha : f a = none) (l : List α) :
    (l.filter fun x => !x == a).findSome? f = l.findSome? f := by
  induction l with
  | nil => rfl
  | cons x rest ih =>
      by_cases hx : x = a
      · simp [hx, ha, ih]
      · simp [hx, ih, List.findSome?_cons]

/-- A search is not changed by leaving out repetitions. -/
theorem findSome?_eraseDups (f : α → Option β) (l : List α) :
    l.eraseDups.findSome? f = l.findSome? f := by
  match l with
  | [] => simp
  | a :: rest =>
      rw [List.eraseDups_cons, List.findSome?_cons, List.findSome?_cons]
      cases ha : f a with
      | some b => rfl
      | none => exact (findSome?_eraseDups f _).trans (findSome?_filter_ne ha rest)
termination_by l.length
decreasing_by
  have := List.length_filter_le (fun x => !x == a) rest
  simp only [List.length_cons]
  omega

theorem nodup_eraseDups (l : List α) : l.eraseDups.Nodup := by
  refine (pairwise_idxOf_eraseDups l).imp ?_
  rintro a b hlt rfl
  exact Nat.lt_irrefl _ hlt

end Repetitions

/-! ## Well-named stores -/

namespace Store

/-- Every definition stands once, under its own name, and the names of constants, of the owners of
methods, of superclasses and of mixins are plain. -/
structure WellNamed (s : Store) : Prop where
  keys_nodup : s.entries.keys.Nodup
  name_eq : ∀ entry ∈ s.entries, entry.2.qualifiedName = entry.1
  plain_constant : ∀ d ∈ s.definitions, d.isConstant = true → Name.Plain d.qualifiedName
  plain_owner : ∀ d ∈ s.definitions, ∀ m ∈ d.method?, Name.Plain m.owner
  plain_superclass : ∀ d ∈ s.definitions, ∀ name ∈ superclassName? d, Name.Plain name
  plain_mixin : ∀ d ∈ s.definitions, ∀ m ∈ d.module?, ∀ name ∈ m.includes ++ m.prepends,
    Name.Plain name

namespace WellNamed

variable {s : Store}

theorem of_find? (hs : s.WellNamed) {name : String} {d : Definition} (h : s.find? name = some d) :
    d ∈ s.definitions ∧ d.qualifiedName = name :=
  ⟨mem_definitions_of_find? h, hs.name_eq _ (Assoc.mem_of_find? h)⟩

/-- Looking up a name is searching the definitions for it. -/
theorem find?_eq_find?_definitions (hs : s.WellNamed) (name : String) :
    s.find? name = s.definitions.find? fun d => d.qualifiedName = name := by
  have hentries : ∀ entries : Assoc String Definition,
      (∀ entry ∈ entries, entry.2.qualifiedName = entry.1) →
        entries.find? name = entries.values.find? fun d => d.qualifiedName = name := by
    intro entries hnames
    induction entries with
    | nil => rfl
    | cons entry rest ih =>
        have hrest := ih fun entry h => hnames entry (List.mem_cons_of_mem _ h)
        have hentry : entry.2.qualifiedName = entry.1 := hnames entry List.mem_cons_self
        simp only [Assoc.find?, Assoc.values, List.map_cons, List.find?_cons, hentry]
        by_cases hname : entry.1 = name
        · simp [hname]
        · simpa [hname, Assoc.values] using hrest
  exact hentries s.entries hs.name_eq

/-! ## Chains -/

/-- What the bases of a definition, which are stored themselves, are called is plain. -/
theorem plain_bases (hs : s.WellNamed) {seen : List String} {d : Definition}
    (hd : d ∈ s.definitions) (hplain : Name.Plain d.qualifiedName) :
    ∀ base ∈ s.basesFrom seen d, base ∈ s.definitions ∧ Name.Plain base.qualifiedName := by
  fun_induction basesFrom s seen d with
  | case1 seen d _ => simpa using ⟨hd, hplain⟩
  | case2 seen d _ _ _ => simpa using ⟨hd, hplain⟩
  | case3 seen d _ _ _ _ _ => simpa using ⟨hd, hplain⟩
  | case4 seen d name hname superclass hfound hseen ih =>
      rcases hs.of_find? hfound with ⟨hstored, heq⟩
      have habove := ih hstored (heq ▸ hs.plain_superclass d hd name hname)
      intro base hbase
      rcases List.mem_cons.1 hbase with rfl | hbase
      · exact ⟨hd, hplain⟩
      · exact habove base hbase

theorem plain_mixins (hs : s.WellNamed) {names : List String}
    (hnames : ∀ name ∈ names, Name.Plain name) :
    ∀ d ∈ s.mixins names, Name.Plain d.qualifiedName := by
  intro d hd
  rcases List.mem_filterMap.1 hd with ⟨name, hname, hfound⟩
  rw [(hs.of_find? hfound).2]
  exact hnames name (List.mem_reverse.1 hname)

theorem plain_expand (hs : s.WellNamed) {base : Definition} (hbase : base ∈ s.definitions)
    (hplain : Name.Plain base.qualifiedName) :
    ∀ d ∈ s.expand base, Name.Plain d.qualifiedName := by
  unfold expand
  cases hm : base.module? with
  | none => simpa using hplain
  | some m =>
      have hmixin := hs.plain_mixin base hbase m hm
      intro d hd
      rcases List.mem_append.1 hd with hprepend | hrest
      · exact hs.plain_mixins (fun name h => hmixin name (List.mem_append_right _ h)) d hprepend
      · rcases List.mem_cons.1 hrest with rfl | hinclude
        · exact hplain
        · exact hs.plain_mixins (fun name h => hmixin name (List.mem_append_left _ h)) d hinclude

/-- All owners that are searched for the methods of a type with a plain name have plain names. -/
theorem plain_chainNames (hs : s.WellNamed) {type : String} (htype : Name.Plain type) :
    ∀ owner ∈ s.chainNames type, Name.Plain owner := by
  unfold chainNames
  cases hd : s.find? type with
  | none => simpa using htype
  | some d =>
      rcases hs.of_find? hd with ⟨hstored, hname⟩
      intro owner howner
      rcases List.mem_map.1 howner with ⟨e, he, rfl⟩
      rcases List.mem_flatMap.1 he with ⟨base, hbase, hexpand⟩
      rcases hs.plain_bases hstored (hname ▸ htype) base hbase with ⟨hstored', hplain⟩
      exact hs.plain_expand hstored' hplain e hexpand

/-! ## One owner -/

/-- A stored definition has the qualified name of a method exactly if it is that method. -/
theorem qualifiedName_eq_qualify_iff (hs : s.WellNamed) {owner : String}
    (howner : Name.Plain owner) {d : Definition} (hd : d ∈ s.definitions) (kind : MethodKind)
    (name : String) :
    d.qualifiedName = kind.qualify owner name ↔
      (∃ m, d.method? = some m ∧ m.kind = kind ∧ m.owner = owner) ∧ d.leafName = name := by
  cases hm : d.method? with
  | none =>
      -- a constant, whose plain name cannot be that of a method
      have hconstant : d.isConstant = true := by
        cases d <;> simp_all [Definition.method?, Definition.isConstant, Definition.constant?]
      have hplain := hs.plain_constant d hd hconstant
      constructor
      · intro heq
        exact absurd (heq ▸ hplain) (kind.not_plain_qualify owner name)
      · rintro ⟨⟨m, hnone, _⟩, _⟩
        cases hnone
  | some m =>
      have hmethod : d = .ofMethod m := by
        cases d <;> simp_all [Definition.method?]
      have hplain := hs.plain_owner d hd m hm
      subst hmethod
      constructor
      · intro heq
        rcases MethodKind.qualify_inj hplain howner heq with ⟨hkind, howners, hname⟩
        exact ⟨⟨m, rfl, hkind, howners⟩, hname⟩
      · rintro ⟨⟨m', hm', rfl, rfl⟩, rfl⟩
        cases hm'
        rfl

/-- What stands under the qualified name of a method is found among the methods of its owner. -/
theorem find?_qualify (hs : s.WellNamed) {owner : String} (howner : Name.Plain owner)
    (kind : MethodKind) (name : String) :
    s.find? (kind.qualify owner name) =
      (s.methodsOf kind owner).find? fun d => d.leafName = name := by
  rw [hs.find?_eq_find?_definitions]
  unfold methodsOf
  rw [List.find?_filter]
  refine List.find?_congr ?_
  intro d hd
  -- the two tests agree on what is stored
  rw [decide_eq_decide, hs.qualifiedName_eq_qualify_iff howner hd kind name, isMethodOf_iff,
    decide_eq_true_iff]

end WellNamed

/-! ## Chains of owners -/

variable {s : Store}

/-- Along a chain, the method found is the first one listed. -/
theorem findAlong?_eq_first (hs : s.WellNamed) {type : String} (htype : Name.Plain type)
    (method : String) (kind : MethodKind) :
    s.findAlong? method type kind =
      (s.methodsAlong type kind).find? fun d => d.leafName = method := by
  calc
    s.findAlong? method type kind
        = (s.chainNames type).findSome? fun owner =>
            (s.methodsOf kind owner).find? fun d => d.leafName = method :=
          findSome?_congr fun owner howner =>
            hs.find?_qualify (hs.plain_chainNames htype owner howner) kind method
    _ = (s.chainNames type).eraseDups.findSome? fun owner =>
            (s.methodsOf kind owner).find? fun d => d.leafName = method :=
          (findSome?_eraseDups _ _).symm
    _ = (s.methodsAlong type kind).find? fun d => d.leafName = method := by
          rw [methodsAlong_eq, List.find?_flatMap]

theorem mem_methodsAlong_iff {type : String} {kind : MethodKind} {d : Definition} :
    d ∈ s.methodsAlong type kind ↔
      d ∈ s.definitions ∧ ∃ m, d.method? = some m ∧ m.kind = kind ∧
        m.owner ∈ s.chainNames type := by
  simp only [methodsAlong_eq, List.mem_flatMap, List.mem_eraseDups, mem_methodsOf_iff]
  constructor
  · rintro ⟨owner, howner, hd, m, hm, hkind, rfl⟩
    exact ⟨hd, m, hm, hkind, howner⟩
  · rintro ⟨hd, m, hm, hkind, howner⟩
    exact ⟨m.owner, howner, hd, m, hm, hkind, rfl⟩

/-- Definitions under different names are different, so nothing is listed twice. -/
theorem nodup_methodsAlong (hs : s.WellNamed) (type : String) (kind : MethodKind) :
    (s.methodsAlong type kind).Nodup := by
  have hdefinitions : s.definitions.Nodup := by
    have hkeys : s.definitions.map Definition.qualifiedName = s.entries.keys := by
      unfold definitions Assoc.values Assoc.keys
      rw [List.map_map]
      exact List.map_congr_left hs.name_eq
    exact List.Nodup.of_map _ (hkeys ▸ hs.keys_nodup)
  rw [methodsAlong_eq]
  refine List.pairwise_flatMap.2 ⟨?_, ?_⟩
  · intro owner _
    exact hdefinitions.filter _
  · -- the methods of different owners differ in their owner
    refine (nodup_eraseDups (s.chainNames type)).imp ?_
    intro owner owner' hne d hd d' hd' heq
    subst heq
    rcases (mem_methodsOf_iff.1 hd).2 with ⟨m, hm, _, rfl⟩
    rcases (mem_methodsOf_iff.1 hd').2 with ⟨m', hm', _, rfl⟩
    rw [hm] at hm'
    cases hm'
    exact hne rfl

theorem findMethod?_instance (s : Store) (method type : String) :
    s.findMethod? method type .instanceMethod = s.findAlong? method type .instanceMethod := by
  unfold findMethod?
  cases s.findAlong? method type .instanceMethod <;> rfl

/-- A class object is asked along its own chain, then as an instance of `Class` and of `Module`. -/
theorem findMethod?_singleton (s : Store) (method type : String) :
    s.findMethod? method type .singletonMethod =
      ((s.findAlong? method type .singletonMethod).or
        (s.findAlong? method "Class" .instanceMethod)).or
          (s.findAlong? method "Module" .instanceMethod) := by
  unfold findMethod?
  cases s.findAlong? method type .singletonMethod with
  | some d => rfl
  | none =>
      simp only [List.findSome?_cons, List.findSome?_nil, Option.none_or]
      cases s.findAlong? method "Class" .instanceMethod with
      | some d => rfl
      | none => cases s.findAlong? method "Module" .instanceMethod <;> rfl

/-- The method a call on a value is dispatched to is the first one of that name among the methods
listed for the type of the value, and the list holds each stored instance method of an owner in the
chain once.  The same goes for calls on class objects, if `Class` has all that `Module` has. -/
theorem dispatch_eq_first_listed (hs : s.WellNamed) {type : String} (htype : Name.Plain type)
    (hvalue : ∀ target, type ≠ Name.metaclass target) (method : String) :
    s.findMethod? method type .instanceMethod =
        ((s.instanceMethods type).find? fun d => d.leafName = method) ∧
      ((s.instanceMethods type).Nodup ∧
        ∀ d, d ∈ s.instanceMethods type ↔
          d ∈ s.definitions ∧ ∃ m, d.method? = some m ∧ m.kind = .instanceMethod ∧
            m.owner ∈ s.chainNames type) ∧
      ((∀ name, (s.findMethod? name "Module" .instanceMethod).isSome →
          (s.findMethod? name "Class" .instanceMethod).isSome) →
        s.findMethod? method type .singletonMethod =
          (s.singletonMethods type).find? fun d => d.leafName = method) := by
  have hlisted : s.instanceMethods type = s.methodsAlong type .instanceMethod := by
    unfold instanceMethods
    rw [Name.metaclassTarget?_eq_none hvalue]
  rw [hlisted, findMethod?_instance]
  refine ⟨findAlong?_eq_first hs htype method .instanceMethod,
    ⟨nodup_methodsAlong hs type .instanceMethod, fun d => mem_methodsAlong_iff⟩, ?_⟩
  intro hmodule
  have hplain : Name.Plain "Class" := by decide
  have hclass := findAlong?_eq_first hs hplain method .instanceMethod
  have hown := findAlong?_eq_first hs htype method .singletonMethod
  -- `Module` is asked last and cannot add anything
  have hlast : (s.findAlong? method "Class" .instanceMethod).or
      (s.findAlong? method "Module" .instanceMethod) =
        s.findAlong? method "Class" .instanceMethod := by
    have hfound := hmodule method
    rw [findMethod?_instance, findMethod?_instance] at hfound
    cases hc : s.findAlong? method "Class" .instanceMethod with
    | some d => rfl
    | none =>
        cases hm : s.findAlong? method "Module" .instanceMethod with
        | none => rfl
        | some d => simp [hc, hm] at hfound
  unfold singletonMethods
  rw [findMethod?_singleton, Option.or_assoc, hlast, List.find?_append, hown, hclass]

/-- A method that is known by name only. -/
def bareMethod (kind : MethodKind) (owner name : String) : Definition :=
  .ofMethod { kind := kind, name := name, owner := owner, signatures := [] }

/-- A class and its superclass that both include one module, and `Class` derived from `Module`. -/
def hierarchy : Store :=
  let constant (name : String) : Constant := ⟨name, none, none⟩
  addAll {} [
    .ofModule { constant := constant "Named" },
    .ofClass { base := { constant := constant "Base", includes := ["Named"] } },
    .ofClass
      { base := { constant := constant "Leaf", includes := ["Named"] }, superclass := some "Base" },
    .ofClass { base := { constant := constant "Module" } },
    .ofClass { base := { constant := constant "Class" }, superclass := some "Module" },
    bareMethod .instanceMethod "Base" "name",
    bareMethod .instanceMethod "Module" "name",
    bareMethod .instanceMethod "Named" "name",
    bareMethod .singletonMethod "Leaf" "#name"]

theorem wellNamed_hierarchy : hierarchy.WellNamed where
  keys_nodup := by decide
  name_eq := by decide
  plain_constant := by decide
  plain_owner := by decide
  plain_superclass := by decide
  plain_mixin := by decide

theorem leaf_ne_metaclass (target : String) : "Leaf" ≠ Name.metaclass target := by
  intro h
  have hlist := congrArg String.toList h
  simp [Name.metaclass] at hlist

/-- The chain of `Class` goes on to `Module`. -/
theorem hierarchy_class_of_module (name : String)
    (h : (hierarchy.findMethod? name "Module" .instanceMethod).isSome) :
    (hierarchy.findMethod? name "Class" .instanceMethod).isSome := by
  have hmodule : hierarchy.chainNames "Module" = ["Module"] := by cbv
  have hclass : hierarchy.chainNames "Class" = ["Class", "Module"] := by cbv
  rw [findMethod?_instance, findAlong?, hmodule] at h
  rw [findMethod?_instance, findAlong?, hclass, List.findSome?_cons]
  split
  · rfl
  · exact h

theorem instanceMethods_leaf :
    hierarchy.instanceMethods "Leaf" =
      [bareMethod .instanceMethod "Named" "name", bareMethod .instanceMethod "Base" "name"] := by
  have hleaf : hierarchy.chainNames "Leaf" = ["Leaf", "Named", "Base", "Named"] := by cbv
  rw [instanceMethods, Name.metaclassTarget?_eq_none leaf_ne_metaclass]
  dsimp only
  rw [methodsAlong_eq, hleaf]
  decide

theorem singletonMethods_leaf :
    hierarchy.singletonMethods "Leaf" =
      [bareMethod .singletonMethod "Leaf" "#name", bareMethod .instanceMethod "Module" "name"] := by
  have hleaf : hierarchy.chainNames "Leaf" = ["Leaf", "Named", "Base", "Named"] := by cbv
  have hclass : hierarchy.chainNames "Class" = ["Class", "Module"] := by cbv
  rw [singletonMethods, methodsAlong_eq, methodsAlong_eq, hleaf, hclass]
  decide

/-- A value is dispatched to the method of the module, which is nearer than the superclass although
its method was added later; the class object is dispatched to the method of `Module`. -/
theorem hierarchy_dispatch :
    hierarchy.WellNamed ∧ Name.Plain "Leaf" ∧ (∀ target, "Leaf" ≠ Name.metaclass target) ∧
      hierarchy.instanceMethods "Leaf" =
        [bareMethod .instanceMethod "Named" "name", bareMethod .instanceMethod "Base" "name"] ∧
      hierarchy.findMethod? "name" "Leaf" .instanceMethod =
        some (bareMethod .instanceMethod "Named" "name") ∧
      hierarchy.singletonMethods "Leaf" =
        [bareMethod .singletonMethod "Leaf" "#name", bareMethod .instanceMethod "Module" "name"] ∧
      hierarchy.findMethod? "name" "Leaf" .singletonMethod =
        some (bareMethod .instanceMethod "Module" "name") := by
  have hplain : Name.Plain "Leaf" := by decide
  rcases dispatch_eq_first_listed wellNamed_hierarchy hplain leaf_ne_metaclass "name" with
    ⟨hvalue, -, hobject⟩
  refine ⟨wellNamed_hierarchy, hplain, leaf_ne_metaclass, instanceMethods_leaf, ?_,
    singletonMethods_leaf, ?_⟩
  · rw [hvalue, instanceMethods_leaf]
    rfl
  · rw [hobject hierarchy_class_of_module, singletonMethods_leaf]
    rfl

end Store
end RubyIndex
