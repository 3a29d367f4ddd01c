import Mathlib.Order.Defs.LinearOrder
import RubyIndex.Concrete.Source

/-!
# Offsets and positions

Positions are linearly ordered, by line and then by column.  Offsets between characters turn into
positions in the same order, as long as lines and columns fit into their words.

* `Position`, the linear order;
* `Source.Boundary`, an offset between two characters, and `Source.exists_floor`, the whole
  characters before any offset;
* `Source.position_append`, the position behind some characters;
* `Source.position_le`, later offsets have later positions.
-/

namespace RubyIndex

namespace Position

theorem lt_iff {a b : Position} :
    a < b ↔ a.line.toNat < b.line.toNat ∨
      (a.line.toNat = b.line.toNat ∧ a.column.toNat < b.column.toNat) := by
  show a.line < b.line ∨ (a.line = b.line ∧ a.column < b.column) ↔ _
  rw [UInt32.lt_iff_toNat_lt, UInt32.lt_iff_toNat_lt, ← UInt32.toNat_inj]

theorem eq_iff {a b : Position} :
    a = b ↔ a.line.toNat = b.line.toNat ∧ a.column.toNat = b.column.toNat := by
  rw [UInt32.toNat_inj, UInt32.toNat_inj]
  constructor
  · rintro rfl
    exact ⟨rfl, rfl⟩
  · rintro ⟨hline, hcolumn⟩
    cases a
    cases b
    cases hline
    cases hcolumn
    rfl

theorem le_iff {a b : Position} :
    a ≤ b ↔ a.line.toNat < b.line.toNat ∨
      (a.line.toNat = b.line.toNat ∧ a.column.toNat ≤ b.column.toNat) := by
  show a < b ∨ a = b ↔ _
  rw [lt_iff, eq_iff]
  omega

instance : LinearOrder Position where
  le_refl := by
    intro a
    rw [le_iff]
    omega
  le_trans := by
    intro a b c
    simp only [le_iff]
    omega
  lt_iff_le_not_ge := by
    intro a b
    simp only [le_iff, lt_iff]
    omega
  le_antisymm := by
    intro a b
    simp only [le_iff, eq_iff]
    omega
  le_total := by
    intro a b
    simp only [le_iff]
    omega
  toDecidableLE := inferInstance

theorem latest_le_iff {a b p : Position} : a.latest b ≤ p ↔ a ≤ p ∧ b ≤ p := by
  constructor
  · intro h
    exact ⟨le_trans (le_max_left a b) h, le_trans (le_max_right a b) h⟩
  · rintro ⟨ha, hb⟩
    exact max_le ha hb

/-- The latest of some positions. -/
theorem foldl_latest_le_iff {a p : Position} {rest : List Position} :
    rest.foldl latest a ≤ p ↔ ∀ b ∈ a :: rest, b ≤ p := by
  induction rest generalizing a with
  | nil => simp
  | cons b rest ih => simp [ih, latest_le_iff, and_assoc]

end Position

namespace Concrete
namespace Source

/-- The length of a text in bytes. -/
def bytes (s : Source) : Nat :=
  total (s.map Char.utf8Size)

@[simp] theorem bytes_nil : bytes [] = 0 := rfl

@[simp] theorem bytes_cons (c : Char) (s : Source) : bytes (c :: s) = c.utf8Size + bytes s := rfl

@[simp] theorem bytes_append (s s' : Source) : bytes (s ++ s') = bytes s + bytes s' := by
  simp [bytes]

theorem length_le_bytes (s : Source) : s.length ≤ s.bytes := by
  induction s with
  | nil => simp
  | cons c s ih =>
      have hpos := c.utf8Size_pos
      simp only [List.length_cons, bytes_cons]
      omega

/-- Whether an offset lies between two characters, or at an end of the text. -/
def Boundary (s : Source) (offset : Nat) : Prop :=
  (dropBytes? offset s).isSome = true

instance (s : Source) (offset : Nat) : Decidable (s.Boundary offset) :=
  inferInstanceAs (Decidable (_ = _))

/-- Some characters of the text end at a boundary. -/
theorem Boundary.exists_append {s : Source} {offset : Nat} (h : s.Boundary offset) :
    ∃ before after, s = before ++ after ∧ before.bytes = offset := by
  unfold Boundary at h
  induction s generalizing offset with
  | nil =>
      cases offset with
      | zero => exact ⟨[], [], rfl, rfl⟩
      | succ k => simp [dropBytes?] at h
  | cons c s ih =>
      cases offset with
      | zero => exact ⟨[], c :: s, rfl, rfl⟩
      | succ k =>
          rw [dropBytes?] at h
          split at h
          · rename_i hsize
            obtain ⟨before, after, hs, hbytes⟩ := ih h
            refine ⟨c :: before, after, by rw [hs, List.cons_append], ?_⟩
            rw [bytes_cons, hbytes]
            omega
          · cases h

/-! ## Positions behind characters -/

/-- The last line behind some characters, last character first. -/
def lastLine (line before : Source) : Source :=
  before.foldl (fun line c => if c = '\n' then [] else c :: line) line

/-- Fewer bytes than the first character has, if there is one. -/
def Partial (after : Source) (excess : Nat) : Prop :=
  ∀ c ∈ after.head?, excess < c.utf8Size

/-- Every offset stands behind whole characters, and perhaps inside of the next one. -/
theorem exists_floor (s : Source) (offset : Nat) :
    ∃ before after excess, s = before ++ after ∧ offset = before.bytes + excess ∧
      Partial after excess := by
  induction s generalizing offset with
  | nil => exact ⟨[], [], offset, rfl, by simp, by simp [Partial]⟩
  | cons c s ih =>
      by_cases hc : offset < c.utf8Size
      · exact ⟨[], c :: s, offset, rfl, by simp, by simpa [Partial] using hc⟩
      · rcases ih (offset - c.utf8Size) with ⟨before, after, excess, rfl, hoffset, hpartial⟩
        refine ⟨c :: before, after, excess, rfl, ?_, hpartial⟩
        rw [bytes_cons]
        omega

theorem partial_zero (after : Source) : Partial after 0 :=
  fun c _ => c.utf8Size_pos

theorem row_floor {after : Source} {excess : Nat} (h : Partial after excess) (before : Source) :
    row (before.bytes + excess) (before ++ after) = before.count '\n' := by
  induction before with
  | nil =>
      rw [List.nil_append, bytes_nil, Nat.zero_add, List.count_nil]
      cases after with
      | nil => rfl
      | cons c after =>
          have hlt : excess < c.utf8Size := h c rfl
          rw [row]
          by_cases hzero : excess = 0
          · rw [if_pos hzero]
          · -- a newline has one byte only
            have hc : c ≠ '\n' := by
              rintro rfl
              exact hzero (Nat.lt_one_iff.1 hlt)
            have hrest : excess - c.utf8Size = 0 := by omega
            rw [if_neg hzero, if_neg hc, hrest]
            cases after <;> simp [row]
  | cons c before ih =>
      have hpos := c.utf8Size_pos
      have hne : c.utf8Size + bytes before + excess ≠ 0 := by omega
      have hrest : c.utf8Size + bytes before + excess - c.utf8Size = bytes before + excess := by
        omega
      rw [List.cons_append, bytes_cons, row, if_neg hne, hrest, ih, List.count_cons]
      simp [Nat.add_comm]

theorem lineBefore_floor {after : Source} {excess : Nat} (h : Partial after excess)
    (line before : Source) :
    lineBefore line (before.bytes + excess) (before ++ after) =
      ((lastLine line before).reverse, excess) := by
  induction before generalizing line with
  | nil =>
      rw [List.nil_append, bytes_nil, Nat.zero_add]
      cases after with
      | nil => rfl
      | cons c after =>
          have hlt : excess < c.utf8Size := h c rfl
          rw [lineBefore]
          by_cases hzero : excess = 0
          · rw [if_pos hzero, hzero]
            rfl
          · rw [if_neg hzero, if_neg (Nat.not_le.2 hlt)]
            rfl
  | cons c before ih =>
      have hpos := c.utf8Size_pos
      have hne : c.utf8Size + bytes before + excess ≠ 0 := by omega
      have hle : c.utf8Size ≤ c.utf8Size + bytes before + excess := by omega
      have hrest : c.utf8Size + bytes before + excess - c.utf8Size = bytes before + excess := by
        omega
      rw [List.cons_append, bytes_cons, lineBefore, if_neg hne, if_pos hle, hrest, ih]
      rfl

theorem row_append (before after : Source) :
    row before.bytes (before ++ after) = before.count '\n' :=
  row_floor (partial_zero after) before

theorem lineBefore_append (line before after : Source) :
    lineBefore line before.bytes (before ++ after) = ((lastLine line before).reverse, 0) :=
  lineBefore_floor (partial_zero after) line before

/-- The position behind some characters: the newlines among them, and what follows the last. -/
theorem position_append (before after : Source) :
    position (before ++ after) before.bytes =
      ⟨UInt32.ofNat (before.count '\n') + 1, UInt32.ofNat (lastLine [] before).length⟩ := by
  have hcolumn : column (before ++ after) before.bytes = (lastLine [] before).length := by
    rw [column, lineBefore_append]
    simp
  rw [position, row_append, hcolumn]

/-! ## Order -/

theorem length_lastLine_le (line before : Source) :
    (lastLine line before).length ≤ line.length + before.length := by
  induction before generalizing line with
  | nil => simp [lastLine]
  | cons c before ih =>
      have hrest := ih (if c = '\n' then [] else c :: line)
      have hstart : (if c = '\n' then [] else c :: line).length ≤ line.length + 1 := by
        split <;> simp
      rw [List.length_cons]
      exact Nat.le_trans hrest (by omega)

/-- Without a newline the line only grows. -/
theorem length_lastLine_of_count {more : Source} (h : more.count '\n' = 0) (line : Source) :
    (lastLine line more).length = line.length + more.length := by
  induction more generalizing line with
  | nil => simp [lastLine]
  | cons c more ih =>
      rw [List.count_cons] at h
      have hc : c ≠ '\n' := by
        rintro rfl
        simp at h
      have hmore := ih (by omega) (c :: line)
      simp only [lastLine, List.foldl_cons, if_neg hc] at hmore ⊢
      rw [hmore]
      simp only [List.length_cons]
      omega

theorem lastLine_append (line before more : Source) :
    lastLine line (before ++ more) = lastLine (lastLine line before) more :=
  List.foldl_append

/-- Whether the lines and columns up to an offset fit into words. -/
def Addressable (s : Source) (offset : Nat) : Prop :=
  offset < UInt32.size ∧ row offset s + 1 < UInt32.size

instance (s : Source) (offset : Nat) : Decidable (s.Addressable offset) :=
  inferInstanceAs (Decidable (_ ∧ _))

/-- Up to an addressable offset no word overflows. -/
theorem toNat_position {before after : Source}
    (h : Addressable (before ++ after) before.bytes) :
    (position (before ++ after) before.bytes).line.toNat = before.count '\n' + 1 ∧
      (position (before ++ after) before.bytes).column.toNat = (lastLine [] before).length := by
  obtain ⟨hoffset, hrow⟩ := h
  rw [row_append] at hrow
  have hcolumn : (lastLine [] before).length < UInt32.size := by
    have hline := length_lastLine_le [] before
    have hlength := length_le_bytes before
    simp only [List.length_nil] at hline
    omega
  rw [position_append]
  refine ⟨?_, UInt32.toNat_ofNat_of_lt' hcolumn⟩
  have hline : (UInt32.ofNat (before.count '\n')).toNat = before.count '\n' :=
    UInt32.toNat_ofNat_of_lt' (by omega)
  rw [UInt32.toNat_add, hline]
  exact Nat.mod_eq_of_lt hrow

/-- Up to an earlier offset there are no more newlines. -/
theorem row_le_row (s : Source) {a b : Nat} (h : a ≤ b) : row a s ≤ row b s := by
  induction s generalizing a b with
  | nil => simp [row]
  | cons c s ih =>
      rw [row, row]
      by_cases ha : a = 0
      · rw [if_pos ha]
        exact Nat.zero_le _
      · have hb : b ≠ 0 := by omega
        have hrest := ih (Nat.sub_le_sub_right h c.utf8Size)
        rw [if_neg ha, if_neg hb]
        omega

theorem Addressable.of_le {s : Source} {a b : Nat} (hb : s.Addressable b) (h : a ≤ b) :
    s.Addressable a := by
  obtain ⟨hoffset, hrow⟩ := hb
  have hle := row_le_row s h
  exact ⟨by omega, by omega⟩

/-- Later offsets have later positions. -/
theorem position_lt {s : Source} {a b : Nat} (ha : s.Boundary a) (hb : s.Boundary b)
    (haddress : s.Addressable b) (h : a < b) : s.position a < s.position b := by
  obtain ⟨before, after, hs, rfl⟩ := ha.exists_append
  obtain ⟨before', after', hs', rfl⟩ := hb.exists_append
  -- the characters up to the later offset go on from those up to the earlier one
  obtain ⟨more, rfl, hafter⟩ : ∃ more, before' = before ++ more ∧ after = more ++ after' := by
    rcases List.append_eq_append_iff.1 (hs.symm.trans hs') with ⟨more, hmore⟩ | ⟨more, hmore, -⟩
    · exact ⟨more, hmore⟩
    · rw [hmore, bytes_append] at h
      omega
  subst hs'
  have hsecond := toNat_position haddress
  have hearlier := haddress.of_le (Nat.le_of_lt h)
  rw [List.append_assoc] at hearlier
  have hfirst := toNat_position hearlier
  rw [← List.append_assoc] at hfirst
  rw [Position.lt_iff, hfirst.1, hfirst.2, hsecond.1, hsecond.2, List.count_append]
  by_cases hcount : more.count '\n' = 0
  · -- the same line, further on
    have hmore : 0 < more.length := by
      cases more with
      | nil => simp at h
      | cons c more => simp
    rw [lastLine_append, length_lastLine_of_count hcount]
    omega
  · omega

theorem position_le {s : Source} {a b : Nat} (ha : s.Boundary a) (hb : s.Boundary b)
    (haddress : s.Addressable b) (h : a ≤ b) : s.position a ≤ s.position b := by
  rcases Nat.lt_or_eq_of_le h with hlt | rfl
  · exact le_of_lt (position_lt ha hb haddress hlt)
  · exact le_refl _

end Source
end Concrete
end RubyIndex
