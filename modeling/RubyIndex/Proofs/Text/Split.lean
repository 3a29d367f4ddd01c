import RubyIndex.Text.Split

/-!
# Cutting texts

Where a text is cut at separators: at those that stand at depth zero, where the depth counts the
opening brackets so far less the closing ones.  The depth behind a text and whether it is cut can be
read off its parts.

* `Brackets.level`, how much deeper the end of a text is than its beginning;
* `Uncut`, a text without a separator at depth zero;
* `splitTop_of_uncut`, `splitTop_append`, an uncut text is one part, or it ends at the separator;
* `uncut_or_exists_cut`, every text begins with an uncut one;
* `splitLastScope_eq_none_iff`, `splitLastScope_eq_some_iff`, the last `::` of a text.
-/

namespace RubyIndex
namespace Text

/-! ## Depth -/

/-- The depth at the end of a text that begins at depth zero. -/
def Brackets.level (b : Brackets) : List Char → Int
  | [] => 0
  | c :: rest => b.weight c + b.level rest

variable {b : Brackets} {separator c : Char} {depth : Int} {text text' : List Char}

namespace Brackets

@[simp] theorem level_nil : b.level [] = 0 :=
  rfl

@[simp] theorem level_cons : b.level (c :: text) = b.weight c + b.level text :=
  rfl

@[simp] theorem level_append : b.level (text ++ text') = b.level text + b.level text' := by
  induction text with
  | nil => simp
  | cons c text ih => simp [ih, Int.add_assoc]

theorem level_eq_zero (h : ∀ c ∈ text, b.weight c = 0) : b.level text = 0 := by
  induction text with
  | nil => rfl
  | cons c text ih =>
      obtain ⟨hc, htext⟩ := List.forall_mem_cons.1 h
      simp [hc, ih htext]

end Brackets

/-! ## Texts without a cut -/

/-- From a depth on, no separator in a text stands at depth zero. -/
def Uncut (b : Brackets) (separator : Char) : Int → List Char → Prop
  | _, [] => True
  | depth, c :: rest => ¬ (c = separator ∧ depth = 0) ∧ Uncut b separator (depth + b.weight c) rest

@[simp] theorem uncut_nil : Uncut b separator depth [] :=
  trivial

@[simp] theorem uncut_cons :
    Uncut b separator depth (c :: text) ↔
      ¬ (c = separator ∧ depth = 0) ∧ Uncut b separator (depth + b.weight c) text :=
  Iff.rfl

@[simp] theorem uncut_append :
    Uncut b separator depth (text ++ text') ↔
      Uncut b separator depth text ∧ Uncut b separator (depth + b.level text) text' := by
  induction text generalizing depth with
  | nil => simp
  | cons c text ih => simp [ih, and_assoc, Int.add_assoc]

theorem uncut_of_not_mem (h : separator ∉ text) : Uncut b separator depth text := by
  induction text generalizing depth with
  | nil => trivial
  | cons c text ih =>
      rw [List.mem_cons, not_or] at h
      exact ⟨fun hc => h.1 hc.1.symm, ih h.2⟩

/-- A text is uncut, or it is up to its first separator at depth zero. -/
theorem uncut_or_exists_cut (b : Brackets) (separator : Char) (depth : Int) (text : List Char) :
    Uncut b separator depth text ∨ ∃ before after, text = before ++ separator :: after ∧
      Uncut b separator depth before ∧ depth + b.level before = 0 := by
  induction text generalizing depth with
  | nil => exact Or.inl trivial
  | cons c text ih =>
      by_cases hcut : c = separator ∧ depth = 0
      · obtain ⟨rfl, rfl⟩ := hcut
        exact Or.inr ⟨[], text, rfl, trivial, rfl⟩
      · rcases ih (depth + b.weight c) with huncut | ⟨before, after, rfl, hbefore, hlevel⟩
        · exact Or.inl ⟨hcut, huncut⟩
        · refine Or.inr ⟨c :: before, after, rfl, ⟨hcut, hbefore⟩, ?_⟩
          rw [Brackets.level_cons, ← Int.add_assoc]
          exact hlevel

/-! ## Parts -/

/-- An uncut text belongs to the part it stands in. -/
theorem splitTopFrom_append (h : Uncut b separator depth text) (piece rest : List Char) :
    splitTopFrom b separator depth piece (text ++ rest) =
      splitTopFrom b separator (depth + b.level text) (text.reverse ++ piece) rest := by
  induction text generalizing depth piece with
  | nil => simp
  | cons c text ih =>
      obtain ⟨hcut, htext⟩ := h
      rw [List.cons_append, splitTopFrom, if_neg hcut, ih htext]
      simp [Int.add_assoc]

/-- What has been read of a part stands in front of the first one. -/
theorem exists_splitTopFrom (b : Brackets) (separator : Char) (depth : Int) (text : List Char) :
    ∃ first others, ∀ piece,
      splitTopFrom b separator depth piece text = (piece.reverse ++ first) :: others := by
  induction text generalizing depth with
  | nil => exact ⟨[], [], by simp [splitTopFrom]⟩
  | cons c text ih =>
      by_cases hcut : c = separator ∧ depth = 0
      · exact ⟨[], splitTopFrom b separator 0 [] text, by simp [splitTopFrom, hcut]⟩
      · obtain ⟨first, others, hsplit⟩ := ih (depth + b.weight c)
        refine ⟨c :: first, others, ?_⟩
        intro piece
        rw [splitTopFrom, if_neg hcut, hsplit]
        simp

theorem splitTop_of_uncut (h : Uncut b separator 0 text) : splitTop b separator text = [text] := by
  have hparts := splitTopFrom_append h [] []
  simpa [splitTop, splitTopFrom] using hparts

/-- An uncut text begins the first part. -/
theorem exists_splitTop_append (h : Uncut b separator 0 text) (rest : List Char) :
    ∃ first others, splitTop b separator (text ++ rest) = (text ++ first) :: others := by
  obtain ⟨first, others, hsplit⟩ := exists_splitTopFrom b separator (0 + b.level text) rest
  refine ⟨first, others, ?_⟩
  rw [splitTop, splitTopFrom_append h, hsplit]
  simp

theorem splitTop_append (h : Uncut b separator 0 text) (hlevel : b.level text = 0)
    (rest : List Char) :
    splitTop b separator (text ++ separator :: rest) = text :: splitTop b separator rest := by
  rw [splitTop, splitTopFrom_append h, hlevel, splitTopFrom, if_pos ⟨rfl, rfl⟩]
  simp [splitTop]

/-! ## The scope separator -/

section Scopes

variable {text before after : List Char}

/-- A text without a separator is not cut. -/
theorem splitLastScope_eq_none_iff : splitLastScope text = none ↔ ¬ [':', ':'] <:+: text := by
  induction text with
  | nil => simp [splitLastScope]
  | cons c rest ih =>
      rw [List.infix_cons_iff]
      by_cases hlater : [':', ':'] <:+: rest
      · cases hrest : splitLastScope rest with
        | none => exact absurd hlater (ih.1 hrest)
        | some parts => simp [splitLastScope, hrest, hlater]
      · simp only [splitLastScope, ih.2 hlater, hlater, or_false]
        split
        · simp
        · rename_i hhere
          refine iff_of_true rfl ?_
          rintro ⟨after, hprefix⟩
          obtain ⟨rfl, hafter⟩ := List.cons.inj hprefix
          exact hhere after rfl hafter.symm

/-- A text is cut at the separator behind which no other one begins. -/
theorem splitLastScope_eq_some_iff :
    splitLastScope text = some (before, after) ↔
      text = before ++ ':' :: ':' :: after ∧ ¬ [':', ':'] <:+: ':' :: after := by
  induction text generalizing before with
  | nil => simp [splitLastScope]
  | cons c rest ih =>
      cases hrest : splitLastScope rest with
      | none =>
          -- no separator begins later on, so the last one begins here
          have hlater := splitLastScope_eq_none_iff.1 hrest
          simp only [splitLastScope, hrest]
          constructor
          · intro h
            split at h
            · cases h
              exact ⟨rfl, hlater⟩
            · cases h
          · rintro ⟨htext, -⟩
            cases before with
            | nil =>
                obtain ⟨rfl, rfl⟩ := List.cons.inj htext
                rfl
            | cons b before =>
                have hinfix : [':', ':'] <:+: rest :=
                  ⟨before, after, by simp [(List.cons.inj htext).2]⟩
                exact absurd hinfix hlater
      | some parts =>
          simp only [splitLastScope, hrest]
          constructor
          · intro h
            cases h
            obtain ⟨hparts, hafter⟩ := ih.1 hrest
            exact ⟨congrArg (c :: ·) hparts, hafter⟩
          · rintro ⟨htext, hafter⟩
            cases before with
            | nil =>
                obtain ⟨rfl, rfl⟩ := List.cons.inj htext
                rw [splitLastScope_eq_none_iff.2 hafter] at hrest
                cases hrest
            | cons b before =>
                obtain ⟨rfl, hparts⟩ := List.cons.inj htext
                rw [ih.2 ⟨hparts, hafter⟩] at hrest
                cases hrest
                rfl

end Scopes

end Text
end RubyIndex
