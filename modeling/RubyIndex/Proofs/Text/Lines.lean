import RubyIndex.Proofs.Text.Trim

/-!
# Lines of a text

Lines that hold no line break are the lines of the text they are joined to, but for an empty one at
the end.

* `lines_joinWith`, the lines of a joined text;
* `trim_joinWith_concat_nil`, an empty line at the end makes no difference where blanks are dropped.
-/

namespace RubyIndex
namespace Text

/-! ## Lines -/

/-- A line that is one line of a text: no newline is in it, and no carriage return that would be
dropped with the newline behind it. -/
def Unbroken (line : List Char) : Prop :=
  '\n' ∉ line ∧ line.getLast? ≠ some '\r'

instance : DecidablePred Unbroken := fun line =>
  inferInstanceAs (Decidable ('\n' ∉ line ∧ line.getLast? ≠ some '\r'))

variable {line text : List Char} {rows : List (List Char)}

theorem linesFrom_append (h : '\n' ∉ line) (current rest : List Char) :
    linesFrom current (line ++ rest) = linesFrom (line.reverse ++ current) rest := by
  induction line generalizing current with
  | nil => rfl
  | cons c line ih =>
      rw [List.mem_cons, not_or] at h
      rw [List.cons_append, linesFrom, if_neg (Ne.symm h.1), ih h.2]
      simp

theorem dropReturn_eq_self (h : line.getLast? ≠ some '\r') : dropReturn line = line := by
  unfold dropReturn
  split
  · rename_i rest hrest
    rw [← List.head?_reverse, hrest] at h
    exact absurd rfl h
  · rfl

theorem lines_append (h : Unbroken line) (rest : List Char) :
    lines (line ++ '\n' :: rest) = line :: lines rest := by
  rw [lines, linesFrom_append h.1, linesFrom, if_pos rfl, List.append_nil, List.reverse_reverse,
    dropReturn_eq_self h.2]
  rfl

theorem lines_unbroken (h : '\n' ∉ line) : lines line = if line = [] then [] else [line] := by
  have hline := linesFrom_append h [] []
  rw [List.append_nil, List.append_nil] at hline
  rw [lines, hline, linesFrom]
  simp

/-- Only of an empty line at the end nothing is left. -/
theorem lines_joinWith (h : ∀ row ∈ rows, Unbroken row) :
    lines (joinWith ['\n'] rows) = rows ∨ rows = lines (joinWith ['\n'] rows) ++ [[]] := by
  induction rows with
  | nil => exact Or.inl rfl
  | cons row rows ih =>
      obtain ⟨hrow, hrows⟩ := List.forall_mem_cons.1 h
      cases rows with
      | nil =>
          have hone : lines (joinWith ['\n'] [row]) = if row = [] then [] else [row] :=
            lines_unbroken hrow.1
          rw [hone]
          split
          · rename_i hnil
            exact Or.inr (by rw [hnil]; rfl)
          · exact Or.inl rfl
      | cons next rows =>
          have hnext : lines (joinWith ['\n'] (row :: next :: rows)) =
              row :: lines (joinWith ['\n'] (next :: rows)) := by
            have hjoin : joinWith ['\n'] (row :: next :: rows) =
                row ++ '\n' :: joinWith ['\n'] (next :: rows) := by
              simp [joinWith]
            rw [hjoin, lines_append hrow]
          rw [hnext, List.cons_append, List.cons.injEq, List.cons.injEq]
          exact (ih hrows).imp (And.intro rfl) (And.intro rfl)

/-! ## Joined lines -/

theorem joinWith_concat (separator : List Char) (first : List Char) (rows : List (List Char)) :
    joinWith separator (first :: rows ++ [text]) =
      joinWith separator (first :: rows) ++ separator ++ text := by
  induction rows generalizing first with
  | nil => simp [joinWith]
  | cons row rows ih =>
      have hrows := ih row
      simp only [List.cons_append, joinWith] at hrows ⊢
      rw [hrows]
      simp

/-- An empty line at the end only adds a newline. -/
theorem trim_joinWith_concat_nil (rows : List (List Char)) :
    trim (joinWith ['\n'] (rows ++ [[]])) = trim (joinWith ['\n'] rows) := by
  cases rows with
  | nil => rfl
  | cons first rows =>
      rw [joinWith_concat, List.append_nil]
      exact trim_append_of_blank _ (List.all_eq_true.1 rfl)

end Text
end RubyIndex
