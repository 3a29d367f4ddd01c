import RubyIndex.Proofs.Text.Trim
import RubyIndex.Proofs.Typing.Expression
import RubyIndex.Typing.Declared

/-!
# The texts of type expressions

What can be said of the text of an expression before it is read: the separators in it stand in
brackets, and it neither begins nor ends with a blank.

* `Skips`, a text without a separator outside brackets, and what it is put together from;
* `IsPathChar`, the characters of names and words;
* `TypeExpr.skips_print`, `TypeExpr.edged_print`, both hold of every expression.
-/

namespace RubyIndex

namespace Typing

open Text (Edged)

variable {c : Char} {text rest : List Char}

/-! ## Skipped texts -/

/-- A text in which the search for the end of a part does not stop, and after which it stands at the
depth that it came from. -/
def Skips (depth : Int) (text : List Char) : Prop :=
  ∀ piece rest, Text.splitTopFrom unionBrackets '|' depth piece (text ++ rest) =
    Text.splitTopFrom unionBrackets '|' depth (text.reverse ++ piece) rest

theorem weight_of_not_isBracket (h : isBracket c = false) : unionBrackets.weight c = 0 := by
  simp only [isBracket, List.contains_eq_mem, decide_eq_false_iff_not, List.mem_cons,
    List.not_mem_nil, or_false, not_or] at h
  simp [Text.Brackets.weight, unionBrackets, h]

namespace Skips

variable {depth : Int} {text' : List Char}

theorem nil : Skips depth [] := by
  intro piece rest
  rfl

theorem append (h : Skips depth text) (h' : Skips depth text') : Skips depth (text ++ text') := by
  intro piece rest
  rw [List.append_assoc, h, h', List.reverse_append, List.append_assoc]

theorem char (hbracket : isBracket c = false) (hbar : c = '|' → depth ≠ 0) : Skips depth [c] := by
  intro piece rest
  have hstop : ¬ (c = '|' ∧ depth = 0) := fun ⟨hc, hdepth⟩ => hbar hc hdepth
  rw [List.singleton_append, Text.splitTopFrom, if_neg hstop, weight_of_not_isBracket hbracket,
    Int.add_zero]
  rfl

theorem cons (hbracket : isBracket c = false) (hbar : c = '|' → depth ≠ 0)
    (h : Skips depth text) : Skips depth (c :: text) :=
  (char hbracket hbar).append h

/-- What is skipped one level further down is skipped together with its brackets. -/
theorem around (h : Skips (depth + 1) text) (b : Bracket) : Skips depth (b.around text) := by
  intro piece rest
  have hopening : ¬ (b.opening = '|' ∧ depth = 0) := by cases b <;> simp [Bracket.opening]
  have hclosing : ¬ (b.closing = '|' ∧ depth + 1 = 0) := by cases b <;> simp [Bracket.closing]
  have hdown : unionBrackets.weight b.opening = 1 := by cases b <;> rfl
  have hup : unionBrackets.weight b.closing = -1 := by cases b <;> rfl
  have hback : depth + 1 + -1 = depth := by omega
  -- the opening bracket leads down, the text is skipped there, the closing bracket leads back up
  calc Text.splitTopFrom unionBrackets '|' depth piece (b.around text ++ rest)
      = Text.splitTopFrom unionBrackets '|' (depth + 1) (b.opening :: piece)
          (text ++ b.closing :: rest) := by
        simp [Bracket.around, Text.splitTopFrom, hopening, hdown]
    _ = Text.splitTopFrom unionBrackets '|' depth
          (b.closing :: (text.reverse ++ b.opening :: piece)) rest := by
        rw [h, Text.splitTopFrom, if_neg hclosing, hup, hback]
    _ = Text.splitTopFrom unionBrackets '|' depth ((b.around text).reverse ++ piece) rest := by
        simp [Bracket.around]

end Skips

/-! ## Parts of expressions -/

theorem Content.skips_print {depth : Int} (hdepth : 0 < depth) (content : Content) :
    Skips depth content.print := by
  induction content generalizing depth with
  | done => exact .nil
  | char c plain rest ih => exact .cons plain (fun _ => by omega) (ih hdepth)
  | brackets b inside rest ihInside ihRest =>
      exact ((ihInside (by omega)).around b).append (ihRest hdepth)

/-- Blanks are neither brackets nor separators. -/
theorem not_isBracket_of_isBlank (h : Text.isBlank c = true) : isBracket c = false ∧ c ≠ '|' := by
  have hother : ∀ {d : Char}, Text.isBlank d = false → c ≠ d := by
    rintro d hd rfl
    rw [h] at hd
    cases hd
  refine ⟨?_, hother (by decide)⟩
  simp only [isBracket, List.contains_eq_mem, decide_eq_false_iff_not, List.mem_cons,
    List.not_mem_nil, or_false, not_or]
  refine ⟨?_, ?_, ?_, ?_, ?_, ?_⟩ <;> exact hother (by decide)

theorem Blanks.skips {depth : Int} (blanks : Blanks) : Skips depth blanks.text := by
  obtain ⟨text, hblank⟩ := blanks
  induction text with
  | nil => exact .nil
  | cons c text ih =>
      rw [List.forall_mem_cons] at hblank
      obtain ⟨hbracket, hbar⟩ := not_isBracket_of_isBlank hblank.1
      exact .cons hbracket (fun hc => absurd hc hbar) (ih hblank.2)

/-- A character of the text of a path. -/
def IsPathChar (c : Char) : Prop :=
  c = ':' ∨ continuesConstant c = true

instance : DecidablePred IsPathChar := fun c =>
  inferInstanceAs (Decidable (c = ':' ∨ continuesConstant c = true))

theorem isUpper_iff : c.isUpper = true ↔ 65 ≤ c.toNat ∧ c.toNat ≤ 90 := by
  show decide (c.val ≥ 'A'.val ∧ c.val ≤ 'Z'.val) = true ↔ _
  simp [UInt32.le_iff_toNat_le, ← Char.toNat_val]

theorem isLower_iff : c.isLower = true ↔ 97 ≤ c.toNat ∧ c.toNat ≤ 122 := by
  show (decide (c.val ≥ 'a'.val) && decide (c.val ≤ 'z'.val)) = true ↔ _
  simp [UInt32.le_iff_toNat_le, ← Char.toNat_val]

theorem isAlphanum_iff :
    c.isAlphanum = true ↔ (c.isUpper = true ∨ c.isLower = true) ∨ c.isDigit = true := by
  show ((c.isUpper || c.isLower) || c.isDigit) = true ↔ _
  simp

theorem continuesConstant_of_starts (h : startsConstant c = true) : continuesConstant c = true := by
  simp only [startsConstant, continuesConstant, isAlphanum_iff, Bool.or_eq_true] at *
  rcases h with h | h
  · exact Or.inl (Or.inl (Or.inl (Or.inl h)))
  · exact Or.inr h

theorem not_isBlank_of_isAlphanum (h : c.isAlphanum = true) : Text.isBlank c = false := by
  have hrange : ((65 ≤ c.toNat ∧ c.toNat ≤ 90) ∨ (97 ≤ c.toNat ∧ c.toNat ≤ 122)) ∨
      (48 ≤ c.toNat ∧ c.toNat ≤ 57) := by
    simpa [isAlphanum_iff, isUpper_iff, isLower_iff, Char.isDigit_iff_toNat] using h
  simp only [Text.isBlank, Bool.or_eq_false_iff, Bool.and_eq_false_iff, beq_eq_false_iff_ne,
    decide_eq_false_iff_not]
  omega

theorem IsPathChar.not_isBlank (h : IsPathChar c) : Text.isBlank c = false := by
  rcases h with rfl | h
  · decide
  · simp only [continuesConstant, Bool.or_eq_true, Bool.and_eq_true, Bool.not_eq_true'] at h
    rcases h with (h | h) | ⟨-, h⟩
    · exact not_isBlank_of_isAlphanum h
    · rw [eq_of_beq h]
      decide
    · exact h

/-- The other characters with a meaning of their own are not in paths. -/
theorem IsPathChar.ne {d : Char} (h : IsPathChar c)
    (hd : d ∈ [ '(', ')', '[', ']', '\x7b', '\x7d', '|', '?' ]) : c ≠ d := by
  rintro rfl
  simp only [List.mem_cons, List.not_mem_nil, or_false] at hd
  rcases hd with rfl | rfl | rfl | rfl | rfl | rfl | rfl | rfl <;> exact absurd h (by decide)

theorem skips_of_isPathChar {depth : Int} (h : ∀ c ∈ text, IsPathChar c) : Skips depth text := by
  induction text with
  | nil => exact .nil
  | cons c text ih =>
      rw [List.forall_mem_cons] at h
      have hbracket : isBracket c = false := by
        simp only [isBracket, List.contains_eq_mem, decide_eq_false_iff_not, List.mem_cons,
          List.not_mem_nil, or_false, not_or]
        refine ⟨?_, ?_, ?_, ?_, ?_, ?_⟩ <;> exact h.1.ne (by simp)
      exact .cons hbracket (fun hc => absurd hc (h.1.ne (by simp))) (ih h.2)

theorem edged_of_isPathChar (h : ∀ c ∈ text, IsPathChar c) (hne : text ≠ []) : Edged text := by
  refine ⟨⟨text.head hne, List.head?_eq_some_head hne, ?_⟩,
    ⟨text.getLast hne, List.getLast?_eq_some_getLast hne, ?_⟩⟩
  · exact (h _ (List.head_mem hne)).not_isBlank
  · exact (h _ (List.getLast_mem hne)).not_isBlank

theorem edged_around (b : Bracket) (text : List Char) : Edged (b.around text) :=
  Text.edged_between (by cases b <;> decide) (by cases b <;> decide) text

namespace ConstantPath

theorem isPathChar_of_mem_constant {n : ConstantName} (h : c ∈ n.print) : IsPathChar c := by
  rcases List.mem_cons.1 h with rfl | h
  · exact Or.inr (continuesConstant_of_starts n.starts)
  · exact Or.inr (n.continues c h)

theorem isPathChar_of_mem_name {p : ConstantPath} (h : c ∈ p.name) : IsPathChar c := by
  rcases List.mem_append.1 h with h | h
  · exact isPathChar_of_mem_constant h
  · obtain ⟨n, -, hc⟩ := List.mem_flatMap.1 h
    rcases List.mem_append.1 hc with hc | hc
    · exact Or.inl (by simpa using hc)
    · exact isPathChar_of_mem_constant hc

theorem isPathChar_of_mem {p : ConstantPath} (h : c ∈ p.print) : IsPathChar c := by
  rcases List.mem_append.1 h with h | h
  · refine Or.inl ?_
    split at h
    · simpa using h
    · cases h
  · exact isPathChar_of_mem_name h

theorem name_ne_nil (p : ConstantPath) : p.name ≠ [] := by
  simp [name, ConstantName.print]

theorem print_ne_nil (p : ConstantPath) : p.print ≠ [] := by
  simp [print, name_ne_nil]

theorem edged_print (p : ConstantPath) : Edged p.print :=
  edged_of_isPathChar (fun _ => isPathChar_of_mem) p.print_ne_nil

end ConstantPath

theorem Word.isPathChar_of_mem {w : Word} (h : c ∈ w.print) : IsPathChar c := by
  refine Or.inr ?_
  have hall : w.print.all continuesConstant = true := by cases w <;> decide
  exact List.all_eq_true.1 hall c h

theorem isPathChar_of_mem_singleton (h : c ∈ "singleton".toList) : IsPathChar c := by
  refine Or.inr ?_
  have hall : "singleton".toList.all continuesConstant = true := by decide
  exact List.all_eq_true.1 hall c h

/-! ## Expressions -/

-- a type may stand at any depth, a union only in parentheses, so at depth one or more

mutual

/-- Separators in an expression stand in brackets. -/
theorem TypeExpr.skips_print {depth : Int} (hdepth : 0 ≤ depth) :
    ∀ e : TypeExpr, Skips depth e.print
  | .path p arguments => by
      rw [TypeExpr.print]
      refine (skips_of_isPathChar fun _ => ConstantPath.isPathChar_of_mem).append ?_
      cases arguments with
      | none => exact .nil
      | some content => exact (content.skips_print (by omega)).around _
  | .word w => by
      rw [TypeExpr.print]
      exact skips_of_isPathChar fun _ => Word.isPathChar_of_mem
  | .singleton p => by
      rw [TypeExpr.print]
      exact (skips_of_isPathChar fun _ => isPathChar_of_mem_singleton).append
        ((skips_of_isPathChar fun _ => ConstantPath.isPathChar_of_mem).around _)
  | .tuple content => by
      rw [TypeExpr.print]
      exact (content.skips_print (by omega)).around _
  | .record content => by
      rw [TypeExpr.print]
      exact (content.skips_print (by omega)).around _
  | .group u => by
      rw [TypeExpr.print]
      exact (UnionExpr.skips_print (by omega) u).around _
  | .optional e gap => by
      rw [TypeExpr.print]
      exact ((TypeExpr.skips_print hdepth e).append gap.skips).append
        (.char (by decide) (by simp))

/-- In brackets the separators of a union do not count. -/
theorem UnionExpr.skips_print {depth : Int} (hdepth : 0 < depth) :
    ∀ u : UnionExpr, Skips depth u.print
  | .one before e after => by
      rw [UnionExpr.print]
      exact (before.skips.append (TypeExpr.skips_print (by omega) e)).append after.skips
  | .more before e after rest => by
      rw [UnionExpr.print]
      exact ((before.skips.append (TypeExpr.skips_print (by omega) e)).append
        after.skips).append
          (.cons (by decide) (fun _ => by omega) (UnionExpr.skips_print hdepth rest))

end

/-- No expression begins or ends with a blank. -/
theorem TypeExpr.edged_print : ∀ e : TypeExpr, Edged e.print
  | .path p arguments => by
      rw [TypeExpr.print]
      cases arguments with
      | none =>
          rw [Option.elim_none, List.append_nil]
          exact p.edged_print
      | some content => exact p.edged_print.append (edged_around _ _)
  | .word w => by
      rw [TypeExpr.print]
      exact edged_of_isPathChar (fun _ => Word.isPathChar_of_mem) (by cases w <;> decide)
  | .singleton p => by
      rw [TypeExpr.print]
      exact (edged_of_isPathChar (fun _ => isPathChar_of_mem_singleton) (by decide)).append
        (edged_around _ _)
  | .tuple content => by
      rw [TypeExpr.print]
      exact edged_around _ _
  | .record content => by
      rw [TypeExpr.print]
      exact edged_around _ _
  | .group u => by
      rw [TypeExpr.print]
      exact edged_around _ _
  | .optional e gap => by
      obtain ⟨⟨first, hfirst, hblank⟩, -⟩ := TypeExpr.edged_print e
      rw [TypeExpr.print, List.append_assoc]
      refine ⟨⟨first, ?_, hblank⟩, ⟨'?', ?_, by decide⟩⟩
      · simp [Option.mem_def.1 hfirst]
      · simp

end Typing
end RubyIndex
