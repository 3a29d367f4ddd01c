import Mathlib.Data.Nat.Digits.Lemmas
import RubyIndex.Syntax.Literal

/-!
# Integer literals

A literal writes a number in one of five forms, with letters in either case and underscores
anywhere.  Its leaf holds that number if it fits 64 bits with a sign, and the text without
underscores if not.

* `Literal.Worth` and `Literal.Spells`, digits in a radix and the number they are worth;
* `Literal.Form.Writes`, a number in some form, and `Literal.Underscored`, underscores in a text;
* `Literal.natural?_map_digitChar` and `Literal.Form.Writes.radixOf`, what is read from the digits
  and from the mark before them;
* `Leaf.ofInteger_spelled`, the leaf of a literal.
-/

namespace RubyIndex
namespace Syntax
namespace Literal

/-! ## Digits -/

/-- Digits that are worth `n` in a radix, the most significant one first. -/
structure Worth (radix n : Nat) (ds : List Nat) : Prop where
  ne_nil : ds ≠ []
  lt : ∀ d ∈ ds, d < radix
  value : Nat.ofDigits radix ds.reverse = n

/-- The characters of digits worth `n`, letters in either case. -/
def Spells (radix n : Nat) (digits : List Char) : Prop :=
  ∃ ds, Worth radix n ds ∧ digits.map Char.toLower = ds.map Nat.digitChar

theorem digitValue_digitChar {d : Nat} (h : d < 16) : digitValue (Nat.digitChar d) = some d := by
  revert d
  decide

theorem toLower_digitChar {d : Nat} (h : d < 16) : (Nat.digitChar d).toLower = Nat.digitChar d := by
  revert d
  decide

theorem digitChar_ne {d : Nat} (h : d < 16) {c : Char} (hc : c ∈ [ '_', '+', '-' ]) :
    Nat.digitChar d ≠ c := by
  simp only [List.mem_cons, List.not_mem_nil, or_false] at hc
  rcases hc with rfl | rfl | rfl
  all_goals
    revert d
    decide

theorem digitChar_eq_zero_iff {d : Nat} (h : d < 16) : Nat.digitChar d = '0' ↔ d = 0 := by
  revert d
  decide

/-- Only a zero is a zero in lower case. -/
theorem eq_zero_of_toLower {c : Char} (h : c.toLower = '0') : c = '0' := by
  unfold Char.toLower at h
  split at h
  · rename_i hupper
    have hval : c.val + 32 = 48 := congrArg Char.val h
    have hsum : (c.val.toNat + 32) % UInt32.size = 48 := congrArg UInt32.toNat hval
    have hle : 65 ≤ c.val.toNat := UInt32.le_iff_toNat_le.1 hupper.1
    have hge : c.val.toNat ≤ 90 := UInt32.le_iff_toNat_le.1 hupper.2
    simp only [UInt32.size] at hsum
    omega
  · exact h

theorem worth_digits {radix : Nat} (hone : 1 < radix) {n : Nat} (hn : n ≠ 0) :
    Worth radix n (Nat.digits radix n).reverse where
  ne_nil := by simpa using Nat.digits_ne_nil_iff_ne_zero.2 hn
  lt := fun _ hd => Nat.digits_lt_base hone (List.mem_reverse.1 hd)
  value := by rw [List.reverse_reverse, Nat.ofDigits_digits]

/-- The shortest digits of a number have no zero before others. -/
theorem exists_spells {radix : Nat} (hone : 1 < radix) (hradix : radix ≤ 16) (n : Nat) :
    ∃ digits, Spells radix n digits ∧ (digits.head? = some '0' → digits = [ '0' ]) := by
  by_cases hn : n = 0
  · subst hn
    have hpos : 0 < radix := Nat.lt_trans Nat.zero_lt_one hone
    exact ⟨[ '0' ], ⟨[0], ⟨List.cons_ne_nil _ _, by simpa using hpos, rfl⟩, rfl⟩, fun _ => rfl⟩
  · have hworth := worth_digits hone hn
    refine ⟨(Nat.digits radix n).reverse.map Nat.digitChar, ⟨_, hworth, ?_⟩, ?_⟩
    · rw [List.map_map]
      refine List.map_congr_left ?_
      intro d hd
      exact toLower_digitChar (Nat.lt_of_lt_of_le (hworth.lt d hd) hradix)
    · -- the most significant digit is not zero
      intro hhead
      have hne : Nat.digits radix n ≠ [] := Nat.digits_ne_nil_iff_ne_zero.2 hn
      rw [List.head?_map, List.head?_reverse, List.getLast?_eq_some_getLast hne,
        Option.map_some, Option.some.injEq] at hhead
      have hlast : (Nat.digits radix n).getLast hne < 16 :=
        Nat.lt_of_lt_of_le (Nat.digits_lt_base hone (List.getLast_mem hne)) hradix
      exact absurd ((digitChar_eq_zero_iff hlast).1 hhead) (Nat.getLast_digit_ne_zero radix hn)

section Reading

variable {radix n : Nat} {ds : List Nat}

theorem accumulate_map_digitChar (hradix : radix ≤ 16) (value : Nat) (h : ∀ d ∈ ds, d < radix) :
    accumulate radix value (ds.map Nat.digitChar) =
      some (radix ^ ds.length * value + Nat.ofDigits radix ds.reverse) := by
  induction ds generalizing value with
  | nil => simp [accumulate]
  | cons d ds ih =>
      have hd : d < radix := h d List.mem_cons_self
      have hrest := ih (radix * value + d) fun e he => h e (List.mem_cons_of_mem _ he)
      rw [List.map_cons, accumulate, digitValue_digitChar (by omega), Option.bind_some, if_pos hd,
        hrest, List.reverse_cons, Nat.ofDigits_append, List.length_reverse, List.length_cons,
        Nat.ofDigits_singleton]
      congr 1
      ring

theorem natural?_map_digitChar (hradix : radix ≤ 16) (h : Worth radix n ds) :
    natural? radix (ds.map Nat.digitChar) = some n := by
  have hsome := accumulate_map_digitChar hradix 0 h.lt
  simpa [natural?, h.ne_nil, h.value] using hsome

/-- Digits have no sign, and what they are worth must fit. -/
theorem signed64?_map_digitChar (hradix : radix ≤ 16) (h : Worth radix n ds) :
    signed64? radix (ds.map Nat.digitChar) = if n < bound64 then some (n : Int) else none := by
  have hnatural := natural?_map_digitChar hradix h
  rcases List.exists_cons_of_ne_nil h.ne_nil with ⟨d, ds, rfl⟩
  have hd : d < 16 := Nat.lt_of_lt_of_le (h.lt d List.mem_cons_self) hradix
  have hplus : Nat.digitChar d ≠ '+' := digitChar_ne hd (by decide)
  have hminus : Nat.digitChar d ≠ '-' := digitChar_ne hd (by decide)
  rw [List.map_cons] at hnatural ⊢
  unfold signed64?
  split
  · rename_i heq
    exact absurd (List.cons.inj heq).1 hplus
  · rename_i heq
    exact absurd (List.cons.inj heq).1 hminus
  · rw [hnatural, Option.bind_some]

end Reading

/-! ## Marks -/

theorem radixOf_of_ne_zero {c : Char} (h : c ≠ '0') (rest : List Char) :
    radixOf (c :: rest) = (10, c :: rest) := by
  unfold radixOf
  split <;> simp_all

/-- A zero is a mark of its own before an octal digit. -/
theorem radixOf_bareOctal {d : Nat} (h : d < 8) (rest : List Char) :
    radixOf ('0' :: Nat.digitChar d :: rest) = (8, Nat.digitChar d :: rest) := by
  interval_cases d <;> rfl

/-! ## Forms -/

/-- The ways to write a number. -/
inductive Form
  | decimal
  | hexadecimal
  | binary
  | octal
  /-- Octal digits behind nothing but a zero. -/
  | bareOctal
  deriving DecidableEq, Repr

namespace Form

def radix : Form → Nat
  | decimal => 10
  | hexadecimal => 16
  | binary => 2
  | octal => 8
  | bareOctal => 8

/-- What may stand before the digits. -/
def marks : Form → List (List Char)
  | decimal => [[]]
  | hexadecimal => [[ '0', 'x' ], [ '0', 'X' ]]
  | binary => [[ '0', 'b' ], [ '0', 'B' ]]
  | octal => [[ '0', 'o' ], [ '0', 'O' ]]
  | bareOctal => [[ '0' ]]

/-- A mark and digits worth `n`.  A decimal has no zero before other digits. -/
def Writes (form : Form) (n : Nat) (text : List Char) : Prop :=
  ∃ mark ∈ form.marks, ∃ digits, Spells form.radix n digits ∧ text = mark ++ digits ∧
    (form = decimal → digits.head? = some '0' → digits = [ '0' ])

theorem radix_bounds (form : Form) : 1 < form.radix ∧ form.radix ≤ 16 := by
  cases form <;> decide

end Form

/-! ## Underscores -/

/-- The second text is the first one with underscores put in. -/
inductive Underscored : List Char → List Char → Prop
  | nil : Underscored [] []
  | keep (c : Char) {written text : List Char} :
      Underscored written text → Underscored (c :: written) (c :: text)
  | insert {written text : List Char} :
      Underscored written text → Underscored written ('_' :: text)

theorem underscored_dropUnderscores (text : List Char) :
    Underscored (dropUnderscores text) text := by
  induction text with
  | nil => exact .nil
  | cons c text ih =>
      by_cases hc : c = '_'
      · subst hc
        exact .insert ih
      · have hkeep : dropUnderscores (c :: text) = c :: dropUnderscores text := by
          simp [dropUnderscores, hc]
        rw [hkeep]
        exact .keep c ih

/-- A text without underscores is what is left when they are dropped again. -/
theorem underscored_iff {written text : List Char} (hnone : '_' ∉ written) :
    Underscored written text ↔ dropUnderscores text = written := by
  constructor
  · intro h
    induction h with
    | nil => rfl
    | @keep c written text _ ih =>
        have hc : c ≠ '_' := fun e => hnone (e ▸ List.mem_cons_self)
        have hwritten := ih fun hmem => hnone (List.mem_cons_of_mem c hmem)
        simpa [dropUnderscores, hc] using hwritten
    | insert _ ih => simpa [dropUnderscores] using ih hnone
  · rintro rfl
    exact underscored_dropUnderscores text

namespace Form

variable {form : Form} {n : Nat} {text : List Char}

/-- The radix and the digits of a written number are found again. -/
theorem Writes.radixOf (h : form.Writes n text) :
    ∃ ds, Worth form.radix n ds ∧
      Literal.radixOf (text.map Char.toLower) = (form.radix, ds.map Nat.digitChar) := by
  rcases h with ⟨mark, hmark, digits, ⟨ds, hworth, hlower⟩, rfl, hzero⟩
  refine ⟨ds, hworth, ?_⟩
  rw [List.map_append, hlower]
  rcases List.exists_cons_of_ne_nil hworth.ne_nil with ⟨d, ds, rfl⟩
  have hd : d < form.radix := hworth.lt d List.mem_cons_self
  cases form with
  | decimal =>
      cases List.mem_singleton.1 hmark
      by_cases hzeroDigit : d = 0
      · -- a zero in front stands alone
        subst hzeroDigit
        rcases List.map_eq_cons_iff.1 hlower with ⟨c, cs, rfl, hc, hcs⟩
        cases hzero rfl (congrArg some (eq_zero_of_toLower hc))
        cases List.map_eq_nil_iff.1 hcs.symm
        rfl
      · have hfirst : Nat.digitChar d ≠ '0' := by
          rwa [Ne, digitChar_eq_zero_iff (Nat.lt_trans hd (by decide))]
        exact radixOf_of_ne_zero hfirst _
  | hexadecimal =>
      rcases List.mem_pair.1 hmark with rfl | rfl <;> rfl
  | binary =>
      rcases List.mem_pair.1 hmark with rfl | rfl <;> rfl
  | octal =>
      rcases List.mem_pair.1 hmark with rfl | rfl <;> rfl
  | bareOctal =>
      cases List.mem_singleton.1 hmark
      exact radixOf_bareOctal hd _

theorem not_mem_underscore_of_mark {mark : List Char} (h : mark ∈ form.marks) : '_' ∉ mark := by
  revert h mark
  cases form <;> decide

theorem Writes.not_mem_underscore (h : form.Writes n text) : '_' ∉ text := by
  rcases h with ⟨mark, hmark, digits, ⟨ds, hworth, hlower⟩, rfl, -⟩
  rw [List.mem_append]
  rintro (hmem | hmem)
  · exact not_mem_underscore_of_mark hmark hmem
  · have hmem' : Char.toLower '_' ∈ ds.map Nat.digitChar := hlower ▸ List.mem_map_of_mem hmem
    rcases List.mem_map.1 hmem' with ⟨d, hd, hc⟩
    have hlt : d < 16 := Nat.lt_of_lt_of_le (hworth.lt d hd) form.radix_bounds.2
    exact digitChar_ne hlt (by decide) hc

/-- Every number can be written in every form. -/
theorem exists_writes (form : Form) (n : Nat) : ∃ text, form.Writes n text := by
  rcases exists_spells form.radix_bounds.1 form.radix_bounds.2 n with ⟨digits, hspells, hzero⟩
  rcases List.exists_mem_of_ne_nil form.marks (by cases form <;> decide) with ⟨mark, hmark⟩
  exact ⟨mark ++ digits, mark, hmark, digits, hspells, rfl, fun _ => hzero⟩

end Form
end Literal

/-! ## Leaves -/

theorem Leaf.ofInteger_spelled (form : Literal.Form) (n : Nat) :
    (∃ written, form.Writes n written) ∧
    ∀ written text, form.Writes n written → Literal.Underscored written text →
      ofInteger (String.ofList text) =
        if n ≤ 9223372036854775807 then .integer n else .str (String.ofList written) := by
  refine ⟨form.exists_writes n, ?_⟩
  intro written text hwrites hunderscored
  have hdigits : Literal.dropUnderscores text = written :=
    (Literal.underscored_iff hwrites.not_mem_underscore).1 hunderscored
  rcases hwrites.radixOf with ⟨ds, hworth, hradix⟩
  have hsigned := Literal.signed64?_map_digitChar form.radix_bounds.2 hworth
  simp only [ofInteger, String.toList_ofList, hdigits, hradix, hsigned]
  by_cases hfits : n < Literal.bound64
  · have hle : n ≤ 9223372036854775807 := Nat.le_of_lt_succ hfits
    rw [if_pos hfits, if_pos hle]
  · have hnle : ¬ n ≤ 9223372036854775807 := fun hle => hfits (Nat.lt_succ_of_le hle)
    rw [if_neg hfits, if_neg hnle]

/-- The largest number that fits, and the next one. -/
theorem Leaf.ofInteger_at_bound :
    ofInteger "0X7FFF_ffff_FFFF_FFFF" = .integer 9223372036854775807 ∧
      ofInteger "0_X8000_0000_0000_0000_" = .str "0X8000000000000000" := by
  have hlargest : Literal.Form.hexadecimal.Writes 9223372036854775807 "0X7FFFffffFFFFFFFF".toList :=
    ⟨[ '0', 'X' ], by decide, "7FFFffffFFFFFFFF".toList,
      ⟨7 :: List.replicate 15 15, ⟨by decide, by decide, by decide⟩, by decide⟩, by decide, nofun⟩
  have hnext : Literal.Form.hexadecimal.Writes 9223372036854775808 "0X8000000000000000".toList :=
    ⟨[ '0', 'X' ], by decide, "8000000000000000".toList,
      ⟨8 :: List.replicate 15 0, ⟨by decide, by decide, by decide⟩, by decide⟩, by decide, nofun⟩
  exact ⟨(ofInteger_spelled .hexadecimal _).2 _ "0X7FFF_ffff_FFFF_FFFF".toList hlargest
      ((Literal.underscored_iff hlargest.not_mem_underscore).2 (by decide)),
    (ofInteger_spelled .hexadecimal _).2 _ "0_X8000_0000_0000_0000_".toList hnext
      ((Literal.underscored_iff hnext.not_mem_underscore).2 (by decide))⟩

end Syntax
end RubyIndex
