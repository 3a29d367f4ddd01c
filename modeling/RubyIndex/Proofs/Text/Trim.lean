import RubyIndex.Text.Blank

/-!
# Blanks around a text

* `Text.count_trim`, `Text.head?_trim`, what trimming leaves;
* `Text.Edged`, a text without blanks at its ends;
* `Text.trim_blanks`, all that trimming removes from such a text are the blanks around it.
-/

namespace RubyIndex

namespace Text

variable {c : Char} {text before after : List Char}

/-! ## The beginning -/

theorem dropWhile_isBlank (hbefore : ∀ c ∈ before, isBlank c = true)
    (htext : ∃ c ∈ text.head?, isBlank c = false) : (before ++ text).dropWhile isBlank = text := by
  obtain ⟨c, hc, hblank⟩ := htext
  obtain ⟨rest, rfl⟩ := List.head?_eq_some_iff.1 hc
  rw [List.dropWhile_append_of_pos hbefore, List.dropWhile_cons_of_neg (by simp [hblank])]

theorem trim_cons (h : isBlank c = true) (text : List Char) : trim (c :: text) = trim text :=
  congrArg trimEnd (List.dropWhile_cons_of_pos h)

/-! ## The end -/

theorem trimEnd_append_of_blank (text : List Char) (hafter : ∀ c ∈ after, isBlank c = true) :
    trimEnd (text ++ after) = trimEnd text := by
  rw [trimEnd, List.reverse_append, List.dropWhile_append_of_pos (by simpa using hafter)]
  rfl

theorem trimEnd_of_blank (hafter : ∀ c ∈ after, isBlank c = true) : trimEnd after = [] :=
  trimEnd_append_of_blank [] hafter

theorem trim_append_of_blank (text : List Char) (hafter : ∀ c ∈ after, isBlank c = true) :
    trim (text ++ after) = trim text := by
  induction text with
  | nil =>
      have hstart : ∀ c ∈ trimStart after, isBlank c = true := fun c hc =>
        hafter c ((List.dropWhile_sublist isBlank).subset hc)
      exact trimEnd_of_blank hstart
  | cons c text ih =>
      cases hblank : isBlank c with
      | true => rw [List.cons_append, trim_cons hblank, trim_cons hblank, ih]
      | false =>
          have hstart : ∀ rest, trimStart (c :: rest) = c :: rest := fun rest =>
            List.dropWhile_cons_of_neg (by simp [hblank])
          rw [List.cons_append, trim, trim, hstart, hstart]
          exact trimEnd_append_of_blank (c :: text) hafter

/-- What stands behind a text is trimmed on its own. -/
theorem trimEnd_append (htext : ∃ c ∈ text.getLast?, isBlank c = false) (after : List Char) :
    trimEnd (text ++ after) = text ++ trimEnd after := by
  have hhead : ∃ c ∈ text.reverse.head?, isBlank c = false := by
    rwa [List.head?_reverse]
  have hself : ([] ++ text.reverse).dropWhile isBlank = text.reverse :=
    dropWhile_isBlank (List.forall_mem_nil _) hhead
  rw [List.nil_append] at hself
  rw [trimEnd, List.reverse_append, List.dropWhile_append]
  split
  · rename_i hnil
    rw [trimEnd, List.isEmpty_iff.1 hnil, hself]
    simp
  · simp [trimEnd]

theorem mem_head?_of_trimEnd (h : c ∈ (trimEnd text).head?) : c ∈ text.head? := by
  have hsplit := List.takeWhile_append_dropWhile (p := isBlank) (l := text.reverse)
  have htext : text = trimEnd text ++ (text.reverse.takeWhile isBlank).reverse := by
    rw [trimEnd, ← List.reverse_append, hsplit, List.reverse_reverse]
  rw [htext]
  simp [Option.mem_def.1 h]

/-! ## What is left -/

/-- A trimmed text begins with the first character that is no blank. -/
theorem head?_trim (text : List Char) : (trim text).head? = text.find? fun c => !isBlank c := by
  induction text with
  | nil => rfl
  | cons c text ih =>
      cases hblank : isBlank c with
      | true => rw [trim_cons hblank, ih, List.find?_cons_of_neg (by simp [hblank])]
      | false =>
          have hstart : trimStart (c :: text) = [c] ++ text :=
            List.dropWhile_cons_of_neg (by simp [hblank])
          rw [trim, hstart, trimEnd_append ⟨c, rfl, hblank⟩,
            List.find?_cons_of_pos (by simp [hblank])]
          rfl

theorem count_dropWhile (h : isBlank c = false) :
    (text.dropWhile isBlank).count c = text.count c := by
  induction text with
  | nil => rfl
  | cons d text ih =>
      by_cases hd : isBlank d = true
      · have hne : d ≠ c := by
          rintro rfl
          rw [h] at hd
          cases hd
        rw [List.dropWhile_cons_of_pos hd, ih, List.count_cons_of_ne hne]
      · rw [List.dropWhile_cons_of_neg hd]

/-- Trimming removes no character but blanks. -/
theorem count_trim (h : isBlank c = false) : (trim text).count c = text.count c := by
  rw [trim, trimEnd, List.count_reverse, count_dropWhile h, List.count_reverse, trimStart,
    count_dropWhile h]

theorem trim_ne_nil (hc : c ∈ text) (h : isBlank c = false) : trim text ≠ [] := by
  have hcount : 0 < (trim text).count c := by
    rw [count_trim h]
    exact List.count_pos_iff.2 hc
  intro hnil
  rw [hnil] at hcount
  cases hcount

/-! ## Texts without blanks at their ends -/

/-- A text that neither begins nor ends with a blank. -/
def Edged (text : List Char) : Prop :=
  (∃ c ∈ text.head?, isBlank c = false) ∧ ∃ c ∈ text.getLast?, isBlank c = false

theorem Edged.exists_cons (h : Edged text) : ∃ c rest, text = c :: rest ∧ isBlank c = false := by
  obtain ⟨⟨c, hc, hblank⟩, -⟩ := h
  obtain ⟨rest, rfl⟩ := List.head?_eq_some_iff.1 hc
  exact ⟨c, rest, rfl, hblank⟩

theorem edged_between {first last : Char} (hfirst : isBlank first = false)
    (hlast : isBlank last = false) (text : List Char) : Edged (first :: text ++ [last]) :=
  ⟨⟨first, rfl, hfirst⟩, ⟨last, List.getLast?_concat, hlast⟩⟩

theorem Edged.append (h : Edged text) (h' : Edged after) : Edged (text ++ after) := by
  obtain ⟨⟨first, hfirst, hblank⟩, -⟩ := h
  obtain ⟨-, last, hlast, hblank'⟩ := h'
  refine ⟨⟨first, ?_, hblank⟩, ⟨last, ?_, hblank'⟩⟩
  · simp [Option.mem_def.1 hfirst]
  · simp [Option.mem_def.1 hlast]

theorem trim_blanks_append (hbefore : ∀ c ∈ before, isBlank c = true) (htext : Edged text)
    (after : List Char) : trim (before ++ text ++ after) = text ++ trimEnd after := by
  obtain ⟨⟨first, hfirst, hblank⟩, hlast⟩ := htext
  have hstart : trimStart (before ++ (text ++ after)) = text ++ after :=
    dropWhile_isBlank hbefore ⟨first, by simp [Option.mem_def.1 hfirst], hblank⟩
  rw [trim, List.append_assoc, hstart, trimEnd_append hlast]

theorem trim_blanks (hbefore : ∀ c ∈ before, isBlank c = true) (htext : Edged text)
    (hafter : ∀ c ∈ after, isBlank c = true) : trim (before ++ text ++ after) = text := by
  rw [trim_blanks_append hbefore htext, trimEnd_of_blank hafter, List.append_nil]

theorem trim_append (htext : Edged text) (hafter : ∀ c ∈ after, isBlank c = true) :
    trim (text ++ after) = text :=
  trim_blanks (List.forall_mem_nil _) htext hafter

theorem trim_edged (htext : Edged text) : trim text = text := by
  simpa using trim_append htext (List.forall_mem_nil _)

end Text
end RubyIndex
