/-!
# Association lists in insertion order

`set` overwrites the value of a key in its place and appends a new key; `setNew` leaves a key that
is there as it is; `erase` closes the gap.  The lemmas say what each operation does to `find?`.
-/

namespace RubyIndex

/-- Pairs of a key and a value, in the order in which the keys came. -/
abbrev Assoc (α β : Type) := List (α × β)

namespace Assoc

variable {α β : Type} [DecidableEq α]

def find? (key : α) : Assoc α β → Option β
  | [] => none
  | (k, v) :: rest => if k = key then some v else find? key rest

def keys (a : Assoc α β) : List α :=
  a.map Prod.fst

def values (a : Assoc α β) : List β :=
  a.map Prod.snd

def set (key : α) (value : β) : Assoc α β → Assoc α β
  | [] => [(key, value)]
  | (k, v) :: rest => if k = key then (key, value) :: rest else (k, v) :: set key value rest

/-- Adds a key, unless it is there already. -/
def setNew (key : α) (value : β) (a : Assoc α β) : Assoc α β :=
  if (a.find? key).isSome then a else a.set key value

def erase (key : α) (a : Assoc α β) : Assoc α β :=
  a.filter fun entry => entry.1 ≠ key

/-! ## What the operations do to `find?` -/

theorem find?_set (key key' : α) (value : β) (a : Assoc α β) :
    find? key' (set key value a) = if key' = key then some value else find? key' a := by
  induction a with
  | nil => simp [set, find?, eq_comm]
  | cons entry rest ih =>
      obtain ⟨k, v⟩ := entry
      by_cases hk : k = key
      · by_cases h : key' = key
        · simp [set, find?, hk, h]
        · have h' : ¬ key = key' := fun e => h e.symm
          simp [set, find?, hk, h, h']
      · by_cases hk' : k = key'
        · subst hk'
          simp [set, find?, hk]
        · simp [set, find?, hk, hk', ih]

theorem find?_setNew (key key' : α) (value : β) (a : Assoc α β) :
    find? key' (setNew key value a) =
      if key' = key then some ((a.find? key).getD value) else find? key' a := by
  unfold setNew
  split
  · rename_i hsome
    obtain ⟨v, hv⟩ := Option.isSome_iff_exists.1 hsome
    by_cases h : key' = key
    · simp [h, hv]
    · simp [h]
  · rename_i hnone
    rw [find?_set, Option.not_isSome_iff_eq_none.1 hnone]
    rfl

theorem find?_erase (key key' : α) (a : Assoc α β) :
    find? key' (erase key a) = if key' = key then none else find? key' a := by
  induction a with
  | nil => simp [erase, find?]
  | cons entry rest ih =>
      obtain ⟨k, v⟩ := entry
      simp only [erase, List.filter_cons] at ih ⊢
      by_cases hk : k = key
      · subst hk
        by_cases h : key' = k
        · simpa [find?, h] using ih
        · have h' : ¬ k = key' := fun e => h e.symm
          simpa [find?, h, h'] using ih
      · by_cases hk' : k = key'
        · subst hk'
          simp [find?, hk]
        · simpa [find?, hk, hk'] using ih

theorem mem_keys_of_find? {key : α} {value : β} {a : Assoc α β} (h : find? key a = some value) :
    key ∈ keys a := by
  induction a with
  | nil => simp [find?] at h
  | cons entry rest ih =>
      obtain ⟨k, v⟩ := entry
      by_cases hk : k = key
      · simp [keys, hk]
      · simp only [find?, hk, if_false] at h
        exact List.mem_cons_of_mem _ (ih h)

end Assoc
end RubyIndex
