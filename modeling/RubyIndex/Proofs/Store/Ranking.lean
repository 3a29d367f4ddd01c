import Mathlib.Data.List.Basic
import RubyIndex.Store.Methods

/-!
# Methods by the rank of their owners

The methods along a chain are listed by scanning the whole store, ranking each method by the first
place of its owner in the chain, and sorting by rank.  Sorting keeps methods of the same rank in the
order of the store, so this is the chain without its repetitions, each owner with its methods.

* `mergeSort_eq_flatMap`, a stable sort by keys takes one key after the other;
* `pairwise_idxOf_eraseDups`, a list without its repetitions goes by first places;
* `Store.find?_ranks`, the rank of a name;
* `Store.methodsAlong_eq`, the methods along a chain, owner by owner.
-/

namespace RubyIndex

/-! ## Sorting by keys -/

section Keys

variable {α : Type} {l l' : List (Nat × α)}

/-- The entries with a key. -/
def entriesOf (key : Nat) (l : List (Nat × α)) : List (Nat × α) :=
  l.filter fun entry => entry.1 = key

theorem mem_entriesOf {key : Nat} {entry : Nat × α} :
    entry ∈ entriesOf key l ↔ entry ∈ l ∧ entry.1 = key := by
  simp [entriesOf]

@[simp] theorem entriesOf_append (key : Nat) :
    entriesOf key (l ++ l') = entriesOf key l ++ entriesOf key l' :=
  List.filter_append ..

theorem entriesOf_cons (key : Nat) (entry : Nat × α) :
    entriesOf key (entry :: l) =
      if entry.1 = key then entry :: entriesOf key l else entriesOf key l := by
  simp [entriesOf, List.filter_cons]

theorem entriesOf_entriesOf (key key' : Nat) :
    entriesOf key (entriesOf key' l) = if key' = key then entriesOf key l else [] := by
  unfold entriesOf
  split
  · rename_i h
    subst h
    simp
  · rename_i h
    simp only [List.filter_filter, List.filter_eq_nil_iff]
    rintro entry - hkeys
    simp only [Bool.and_eq_true, decide_eq_true_eq] at hkeys
    exact h (hkeys.2.symm.trans hkeys.1)

theorem mem_iff_of_entriesOf_eq (h : ∀ key, entriesOf key l = entriesOf key l')
    (entry : Nat × α) : entry ∈ l ↔ entry ∈ l' := by
  have hkey : entry ∈ entriesOf entry.1 l ↔ entry ∈ entriesOf entry.1 l' := by
    rw [h entry.1]
  simpa [mem_entriesOf] using hkey

/-- The first entry of a list that is sorted by keys has the least key. -/
theorem key_le_of_mem {a entry : Nat × α} (h : (a :: l).Pairwise fun a b => a.1 ≤ b.1)
    (hmem : entry ∈ a :: l) : a.1 ≤ entry.1 := by
  rcases List.mem_cons.1 hmem with rfl | hmem
  · exact Nat.le_refl _
  · exact (List.pairwise_cons.1 h).1 entry hmem

/-- The entries for a key among elements that may have one. -/
theorem entriesOf_filterMap (key : Nat) (key? : α → Option Nat) (elements : List α) :
    entriesOf key (elements.filterMap fun a => (key? a).map fun key => (key, a)) =
      (elements.filter fun a => key? a = some key).map fun a => (key, a) := by
  induction elements with
  | nil => rfl
  | cons a elements ih =>
      rw [List.filterMap_cons, List.filter_cons]
      cases hkey : key? a with
      | none => simpa using ih
      | some key' =>
          by_cases heq : key' = key
          · subst heq
            simpa [entriesOf_cons] using ih
          · simpa [entriesOf_cons, heq] using ih

/-- Lists that are sorted by keys are the same if they have the same entries for each key. -/
theorem eq_of_entriesOf_eq (hl : l.Pairwise fun a b => a.1 ≤ b.1)
    (hl' : l'.Pairwise fun a b => a.1 ≤ b.1) (h : ∀ key, entriesOf key l = entriesOf key l') :
    l = l' := by
  have hmem := mem_iff_of_entriesOf_eq h
  induction l generalizing l' with
  | nil =>
      refine (List.eq_nil_iff_forall_not_mem.2 ?_).symm
      intro entry hentry
      exact List.not_mem_nil ((hmem entry).2 hentry)
  | cons a l ih =>
      cases l' with
      | nil => exact absurd ((hmem a).1 List.mem_cons_self) List.not_mem_nil
      | cons b l' =>
          have hkeys : b.1 = a.1 :=
            Nat.le_antisymm (key_le_of_mem hl' ((hmem a).1 List.mem_cons_self))
              (key_le_of_mem hl ((hmem b).2 List.mem_cons_self))
          have hfirst := h a.1
          rw [entriesOf_cons, entriesOf_cons, if_pos rfl, if_pos hkeys] at hfirst
          obtain ⟨rfl, -⟩ := List.cons.inj hfirst
          have hrest : ∀ key, entriesOf key l = entriesOf key l' := by
            intro key
            have hkey := h key
            rw [entriesOf_cons, entriesOf_cons] at hkey
            split at hkey
            · exact (List.cons.inj hkey).2
            · exact hkey
          rw [ih hl.of_cons hl'.of_cons hrest (mem_iff_of_entriesOf_eq hrest)]

theorem key_le_trans (a b c : Nat × α) (hab : decide (a.1 ≤ b.1) = true)
    (hbc : decide (b.1 ≤ c.1) = true) : decide (a.1 ≤ c.1) = true := by
  simp only [decide_eq_true_eq] at hab hbc ⊢
  exact Nat.le_trans hab hbc

theorem key_le_total (a b : Nat × α) : (decide (a.1 ≤ b.1) || decide (b.1 ≤ a.1)) = true := by
  simpa using Nat.le_total a.1 b.1

theorem pairwise_mergeSort_key :
    (l.mergeSort fun a b => a.1 ≤ b.1).Pairwise fun a b => a.1 ≤ b.1 := by
  have hsorted := List.pairwise_mergeSort key_le_trans key_le_total l
  exact hsorted.imp fun h => by simpa using h

/-- Sorting keeps the entries for a key, in their order. -/
theorem entriesOf_mergeSort (key : Nat) :
    entriesOf key (l.mergeSort fun a b => a.1 ≤ b.1) = entriesOf key l := by
  have hperm : (entriesOf key (l.mergeSort fun a b => a.1 ≤ b.1)).Perm (entriesOf key l) :=
    (List.mergeSort_perm l _).filter _
  have hsub : (entriesOf key l).Sublist (l.mergeSort fun a b => a.1 ≤ b.1) := by
    refine List.sublist_mergeSort key_le_trans key_le_total ?_ List.filter_sublist
    refine List.pairwise_of_forall_mem_list ?_
    intro a ha b hb
    simp [(mem_entriesOf.1 ha).2, (mem_entriesOf.1 hb).2]
  have hsub' := hsub.filter fun entry => entry.1 = key
  have hkept : (entriesOf key l).filter (fun entry => entry.1 = key) = entriesOf key l := by
    have hself := entriesOf_entriesOf (l := l) key key
    rwa [if_pos rfl] at hself
  rw [hkept] at hsub'
  exact (hsub'.eq_of_length hperm.length_eq.symm).symm

/-- Taking one key after the other. -/
theorem entriesOf_flatMap (key : Nat) {keys : List Nat} (hkeys : keys.Nodup) :
    entriesOf key (keys.flatMap fun key' => entriesOf key' l) =
      if key ∈ keys then entriesOf key l else [] := by
  induction keys with
  | nil => rfl
  | cons key' keys ih =>
      obtain ⟨hnot, hkeys⟩ := List.nodup_cons.1 hkeys
      rw [List.flatMap_cons, entriesOf_append, entriesOf_entriesOf, ih hkeys]
      by_cases hkey : key' = key
      · subst hkey
        simp [hnot]
      · have hne : key ≠ key' := fun h => hkey h.symm
        simp [hkey, hne]

theorem pairwise_flatMap_entriesOf {keys : List Nat} (hkeys : keys.Pairwise (· < ·)) :
    (keys.flatMap fun key => entriesOf key l).Pairwise fun a b => a.1 ≤ b.1 := by
  refine List.pairwise_flatMap.2 ⟨?_, ?_⟩
  · intro key _
    refine List.pairwise_of_forall_mem_list ?_
    intro a ha b hb
    exact Nat.le_of_eq ((mem_entriesOf.1 ha).2.trans (mem_entriesOf.1 hb).2.symm)
  · refine hkeys.imp ?_
    intro key key' hlt a ha b hb
    rw [(mem_entriesOf.1 ha).2, (mem_entriesOf.1 hb).2]
    exact Nat.le_of_lt hlt

/-- Sorting takes one key after the other, each with its entries as they stood. -/
theorem mergeSort_eq_flatMap {keys : List Nat} (hkeys : keys.Pairwise (· < ·))
    (hmem : ∀ entry ∈ l, entry.1 ∈ keys) :
    (l.mergeSort fun a b => a.1 ≤ b.1) = keys.flatMap fun key => entriesOf key l := by
  refine eq_of_entriesOf_eq pairwise_mergeSort_key (pairwise_flatMap_entriesOf hkeys) ?_
  intro key
  rw [entriesOf_mergeSort, entriesOf_flatMap key (hkeys.imp Nat.ne_of_lt)]
  split
  · rfl
  · rename_i hnot
    refine List.filter_eq_nil_iff.2 ?_
    intro entry hentry hkey
    have hfirst : entry.1 = key := by simpa using hkey
    exact hnot (hfirst ▸ hmem entry hentry)

end Keys

/-! ## First places -/

section Places

variable {α : Type} [DecidableEq α]

/-- Leaving out other names does not change which of two comes first. -/
theorem idxOf_lt_of_filter {p : α → Bool} {a b : α} (ha : p a = true) (hb : p b = true) {l : List α}
    (h : (l.filter p).idxOf a < (l.filter p).idxOf b) : l.idxOf a < l.idxOf b := by
  induction l with
  | nil => simp at h
  | cons c l ih =>
      rw [List.filter_cons] at h
      by_cases hca : c = a
      · subst hca
        have hcb : c ≠ b := by
          rintro rfl
          exact Nat.lt_irrefl _ h
        rw [List.idxOf_cons_self, List.idxOf_cons_ne _ hcb]
        exact Nat.succ_pos _
      · by_cases hcb : c = b
        · subst hcb
          simp [hb] at h
        · rw [List.idxOf_cons_ne _ hca, List.idxOf_cons_ne _ hcb]
          refine Nat.succ_lt_succ (ih ?_)
          split at h
          · rw [List.idxOf_cons_ne _ hca, List.idxOf_cons_ne _ hcb] at h
            exact Nat.lt_of_succ_lt_succ h
          · exact h

/-- A list without its repetitions goes by the first places of its elements. -/
theorem pairwise_idxOf_eraseDups (l : List α) :
    l.eraseDups.Pairwise fun a b => l.idxOf a < l.idxOf b := by
  match l with
  | [] => simp
  | a :: rest =>
      rw [List.eraseDups_cons]
      refine List.pairwise_cons.2 ⟨?_, ?_⟩
      · intro b hb
        have hne : a ≠ b := by
          rintro rfl
          simp [List.mem_eraseDups] at hb
        rw [List.idxOf_cons_self, List.idxOf_cons_ne _ hne]
        exact Nat.succ_pos _
      · refine (pairwise_idxOf_eraseDups (rest.filter fun b => !b == a)).imp_of_mem ?_
        intro b c hb hc hlt
        rw [List.mem_eraseDups, List.mem_filter] at hb hc
        have hlt' := idxOf_lt_of_filter (p := fun x => !x == a) hb.2 hc.2 hlt
        have hb' : a ≠ b := by
          rintro rfl
          simp at hb
        have hc' : a ≠ c := by
          rintro rfl
          simp at hc
        rw [List.idxOf_cons_ne _ hb', List.idxOf_cons_ne _ hc']
        exact Nat.succ_lt_succ hlt'
termination_by l.length
decreasing_by
  have := List.length_filter_le (fun x => !x == a) rest
  simp only [List.length_cons]
  omega

end Places

/-! ## Ranked methods -/

namespace Store

/-- The rank of a name is its first place. -/
theorem find?_ranks (chain : List String) (name : String) :
    (ranks chain).find? name = if name ∈ chain then some (chain.idxOf name) else none := by
  -- along the chain, behind what has a rank already
  have hfold : ∀ (chain : List String) (start : Nat) (known : Assoc String Nat),
      ((chain.zipIdx start).foldl (fun ranks entry => ranks.setNew entry.1 entry.2) known).find?
          name =
        (known.find? name).or (if name ∈ chain then some (chain.idxOf name + start) else none) := by
    intro chain
    induction chain with
    | nil => simp
    | cons first rest ih =>
        intro start known
        rw [List.zipIdx_cons, List.foldl_cons, ih, Assoc.find?_setNew]
        by_cases hname : name = first
        · subst hname
          cases known.find? name <;> simp
        · have hne : first ≠ name := fun h => hname h.symm
          simp [hname, List.idxOf_cons_ne _ hne, Nat.succ_add, Nat.add_assoc]
  exact (hfold chain 0 []).trans (by simp [Assoc.find?])

variable {s : Store} {kind : MethodKind} {chain : List String}

theorem rank?_eq_some_iff {rank : Nat} {d : Definition} :
    rank? (ranks chain) kind d = some rank ↔
      ∃ m, d.method? = some m ∧ m.kind = kind ∧ m.owner ∈ chain ∧ chain.idxOf m.owner = rank := by
  unfold rank?
  rw [Option.bind_eq_some_iff]
  refine exists_congr fun m => and_congr_right fun _ => ?_
  rw [find?_ranks]
  by_cases hkind : m.kind = kind <;> by_cases howner : m.owner ∈ chain <;> simp [hkind, howner]

/-- The methods of a kind that belong to an owner. -/
def methodsOf (s : Store) (kind : MethodKind) (owner : String) : List Definition :=
  s.definitions.filter fun d => d.method?.elim false fun m => m.kind = kind && m.owner == owner

theorem isMethodOf_iff {owner : String} {d : Definition} :
    (d.method?.elim false fun m => m.kind = kind && m.owner == owner) = true ↔
      ∃ m, d.method? = some m ∧ m.kind = kind ∧ m.owner = owner := by
  cases d.method? <;> simp

theorem mem_methodsOf_iff {owner : String} {d : Definition} :
    d ∈ s.methodsOf kind owner ↔
      d ∈ s.definitions ∧ ∃ m, d.method? = some m ∧ m.kind = kind ∧ m.owner = owner := by
  unfold methodsOf
  rw [List.mem_filter, isMethodOf_iff]

/-- On a chain, the definitions with the rank of an owner are its methods. -/
theorem rank?_eq_idxOf_iff {owner : String} (howner : owner ∈ chain) {d : Definition} :
    rank? (ranks chain) kind d = some (chain.idxOf owner) ↔
      ∃ m, d.method? = some m ∧ m.kind = kind ∧ m.owner = owner := by
  rw [rank?_eq_some_iff]
  refine exists_congr fun m => and_congr_right fun _ => and_congr_right fun _ => ?_
  constructor
  · rintro ⟨hmem, hplace⟩
    exact (List.idxOf_inj hmem).1 hplace
  · rintro rfl
    exact ⟨howner, rfl⟩

theorem entriesOf_ranked {owner : String} (howner : owner ∈ chain) :
    entriesOf (chain.idxOf owner) (s.ranked (ranks chain) kind) =
      (s.methodsOf kind owner).map fun d => (chain.idxOf owner, d) := by
  unfold ranked methodsOf
  rw [entriesOf_filterMap]
  congr 1
  refine List.filter_congr ?_
  intro d _
  rw [Bool.eq_iff_iff, isMethodOf_iff, decide_eq_true_eq, rank?_eq_idxOf_iff howner]

/-- The methods along a chain, one owner after the other. -/
theorem methodsAlong_eq (s : Store) (type : String) (kind : MethodKind) :
    s.methodsAlong type kind = (s.chainNames type).eraseDups.flatMap (s.methodsOf kind) := by
  let chain := s.chainNames type
  let methods := s.ranked (ranks chain) kind
  have hkeys : (chain.eraseDups.map fun owner => chain.idxOf owner).Pairwise (· < ·) :=
    List.pairwise_map.2 (pairwise_idxOf_eraseDups chain)
  have hmem : ∀ entry ∈ methods, entry.1 ∈ chain.eraseDups.map fun owner => chain.idxOf owner := by
    intro entry hentry
    obtain ⟨d, -, hd⟩ := List.mem_filterMap.1 hentry
    obtain ⟨rank, hrank, rfl⟩ := Option.map_eq_some_iff.1 hd
    obtain ⟨m, -, -, howner, rfl⟩ := rank?_eq_some_iff.1 hrank
    exact List.mem_map.2 ⟨m.owner, List.mem_eraseDups.2 howner, rfl⟩
  calc s.methodsAlong type kind
      = ((chain.eraseDups.map fun owner => chain.idxOf owner).flatMap fun rank =>
          entriesOf rank methods).map (·.2) :=
        congrArg (List.map Prod.snd) (mergeSort_eq_flatMap hkeys hmem)
    _ = chain.eraseDups.flatMap fun owner =>
          (entriesOf (chain.idxOf owner) methods).map (·.2) := by
        rw [List.flatMap_map, List.map_flatMap]
    _ = chain.eraseDups.flatMap (s.methodsOf kind) := by
        refine List.flatMap_congr ?_
        intro owner howner
        rw [entriesOf_ranked (List.mem_eraseDups.1 howner), List.map_map]
        exact List.map_id _

end Store
end RubyIndex
