import Mathlib.Data.List.Induction
import RubyIndex.Bytes
import RubyIndex.Concrete.LineIndex
import RubyIndex.Proofs.Concrete.Positions
import RubyIndex.Proofs.MessagePack.Forms

/-!
# The positions of offsets

An offset stands behind whole characters and perhaps some bytes of the next one.  The index of lines
and the walk along the characters give it the same position, and between characters that position
counts the newlines before it and the characters since the last of them.

* `Source.newlinesBefore`, the row of an offset by the bytes before it;
* `Source.exists_lastLine`, the last line of some characters and what stands before it;
* `LineIndex.position?_row`, the index gives the position that the walk gives;
* `LineIndex.position?_inOrder`, the positions of a text that is not too long, in order.
-/

namespace RubyIndex
namespace Concrete

namespace Source

/-! ## Newline bytes -/

/-- The number of newline bytes before an offset. -/
def newlinesBefore (s : Source) (offset : Nat) : Nat :=
  ((utf8 (String.ofList s)).take offset).count 0x0A

theorem utf8_ofList (s : Source) : utf8 (String.ofList s) = s.flatMap String.utf8EncodeChar := by
  unfold utf8 ByteArray.toList
  rw [toList_loop_eq, String.toUTF8_eq_toByteArray, String.toByteArray_ofList, List.utf8Encode]
  simp

theorem length_utf8_ofList (s : Source) : (utf8 (String.ofList s)).length = s.bytes := by
  rw [utf8_ofList]
  induction s with
  | nil => rfl
  | cons c s ih =>
      rw [List.flatMap_cons, List.length_append, String.length_utf8EncodeChar, ih, bytes_cons]

theorem ofNat_ne_newline {n : Nat} (hlow : 128 ≤ n) (hhigh : n < 256) : UInt8.ofNat n ≠ 0x0A := by
  intro heq
  have hvalue : (UInt8.ofNat n).toNat = 0x0A := congrArg UInt8.toNat heq
  rw [UInt8.toNat_ofNat_of_lt' hhigh] at hvalue
  omega

/-- Every byte of a longer character has its highest bit set. -/
theorem ne_newline_of_mem_utf8EncodeChar {c : Char} (hc : 127 < c.val.toNat) {b : UInt8}
    (hb : b ∈ String.utf8EncodeChar c) : b ≠ 0x0A := by
  unfold String.utf8EncodeChar at hb
  rw [if_neg (Nat.not_le.2 hc)] at hb
  split at hb
  · simp only [List.mem_cons, List.not_mem_nil, or_false] at hb
    rcases hb with rfl | rfl <;> exact ofNat_ne_newline (by omega) (by omega)
  · split at hb
    · simp only [List.mem_cons, List.not_mem_nil, or_false] at hb
      rcases hb with rfl | rfl | rfl <;> exact ofNat_ne_newline (by omega) (by omega)
    · simp only [List.mem_cons, List.not_mem_nil, or_false] at hb
      rcases hb with rfl | rfl | rfl | rfl <;> exact ofNat_ne_newline (by omega) (by omega)

/-- Only a newline is spelled with the newline byte. -/
theorem count_utf8EncodeChar (c : Char) :
    (String.utf8EncodeChar c).count 0x0A = if c = '\n' then 1 else 0 := by
  by_cases hlong : 127 < c.val.toNat
  · have hne : c ≠ '\n' := by
      rintro rfl
      exact absurd hlong (by decide)
    rw [if_neg hne, List.count_eq_zero]
    exact fun hb => ne_newline_of_mem_utf8EncodeChar hlong hb rfl
  · have hle : c.val.toNat ≤ 127 := Nat.not_lt.1 hlong
    have hbyte : UInt8.ofNat c.val.toNat = 0x0A ↔ c = '\n' := by
      rw [← UInt8.toNat_inj, UInt8.toNat_ofNat_of_lt' (by simp only [UInt8.size]; omega),
        ← Char.toNat_inj]
      rfl
    unfold String.utf8EncodeChar
    rw [if_pos hle, List.count_singleton]
    simp only [beq_iff_eq, hbyte]

theorem count_utf8_ofList (s : Source) : (utf8 (String.ofList s)).count 0x0A = s.count '\n' := by
  rw [utf8_ofList]
  induction s with
  | nil => rfl
  | cons c s ih =>
      rw [List.flatMap_cons, List.count_append, count_utf8EncodeChar, ih, List.count_cons]
      simp [Nat.add_comm]

theorem newlinesBefore_append (before after : Source) :
    newlinesBefore (before ++ after) before.bytes = before.count '\n' := by
  have hbytes : utf8 (String.ofList (before ++ after)) =
      utf8 (String.ofList before) ++ utf8 (String.ofList after) := by
    simp only [utf8_ofList, List.flatMap_append]
  rw [newlinesBefore, hbytes, ← length_utf8_ofList, List.take_left, count_utf8_ofList]

/-! ## Slices -/

theorem dropBytes?_append (before after : Source) :
    dropBytes? before.bytes (before ++ after) = some after := by
  induction before with
  | nil => simp [dropBytes?]
  | cons c before ih =>
      have hpos := c.utf8Size_pos
      have hne : c.utf8Size + bytes before ≠ 0 := by omega
      rcases Nat.exists_eq_succ_of_ne_zero hne with ⟨n, hn⟩
      have hrest : n.succ - c.utf8Size = bytes before := by omega
      rw [List.cons_append, bytes_cons, hn, dropBytes?, if_pos (by omega), hrest, ih]

/-- Whole characters are taken, and no part of one. -/
theorem takeBytes?_floor {after : Source} {excess : Nat} (h : Partial after excess)
    (line : Source) :
    takeBytes? (line.bytes + excess) (line ++ after) = if excess = 0 then some line else none := by
  induction line with
  | nil =>
      rw [List.nil_append, bytes_nil, Nat.zero_add]
      cases excess with
      | zero => simp [takeBytes?]
      | succ n =>
          rw [if_neg (Nat.succ_ne_zero n)]
          cases after with
          | nil => rfl
          | cons c after => rw [takeBytes?, if_neg (Nat.not_le.2 (h c rfl))]
  | cons c line ih =>
      have hpos := c.utf8Size_pos
      have hne : c.utf8Size + bytes line + excess ≠ 0 := by omega
      rcases Nat.exists_eq_succ_of_ne_zero hne with ⟨n, hn⟩
      have hrest : n.succ - c.utf8Size = bytes line + excess := by omega
      rw [List.cons_append, bytes_cons, hn, takeBytes?, if_pos (by omega), hrest, ih]
      split <;> rfl

/-! ## The last line -/

theorem lastLine_concat (before : Source) (c : Char) :
    lastLine [] (before ++ [c]) = if c = '\n' then [] else c :: lastLine [] before := by
  rw [lastLine_append]
  rfl

/-- The characters back to the last newline. -/
theorem lastLine_eq_takeWhile (before : Source) :
    lastLine [] before = before.reverse.takeWhile (· ≠ '\n') := by
  induction before using List.reverseRecOn with
  | nil => rfl
  | append_singleton before c ih =>
      rw [lastLine_concat, List.reverse_append, List.reverse_singleton, List.singleton_append,
        List.takeWhile_cons, ih]
      by_cases hc : c = '\n' <;> simp [hc]

/-- Before the last line stands nothing, or a newline. -/
theorem exists_lastLine (before : Source) :
    ∃ head, before = head ++ (lastLine [] before).reverse ∧
      before.count '\n' = head.count '\n' ∧ (head = [] ∨ ∃ init, head = init ++ [ '\n' ]) := by
  induction before using List.reverseRecOn with
  | nil => exact ⟨[], rfl, rfl, .inl rfl⟩
  | append_singleton before c ih =>
      rw [lastLine_concat]
      by_cases hc : c = '\n'
      · rw [if_pos hc, hc]
        exact ⟨before ++ [ '\n' ], by simp, rfl, .inr ⟨before, rfl⟩⟩
      · rcases ih with ⟨head, hbefore, hcount, hhead⟩
        refine ⟨head, ?_, ?_, hhead⟩
        · rw [if_neg hc, List.reverse_cons, ← List.append_assoc, ← hbefore]
        · rw [List.count_append, hcount]
          simp [hc]

/-- What a slice from the start of the last line up to an offset holds. -/
theorem slice?_floor {after : Source} {excess : Nat} (h : Partial after excess)
    (head line : Source) :
    slice? (head ++ line ++ after) head.bytes (head.bytes + line.bytes + excess) =
      if excess = 0 then some line else none := by
  have hle : head.bytes ≤ head.bytes + line.bytes + excess := by omega
  have hrest : head.bytes + line.bytes + excess - head.bytes = line.bytes + excess := by omega
  rw [slice?, if_pos hle, List.append_assoc, dropBytes?_append, Option.bind_some, hrest,
    takeBytes?_floor h]

theorem column_floor {after : Source} {excess : Nat} (h : Partial after excess) (before : Source) :
    column (before ++ after) (before.bytes + excess) =
      if excess = 0 then (lastLine [] before).length
      else bytes (lastLine [] before).reverse + excess := by
  rw [column, lineBefore_floor h]
  cases excess with
  | zero => simp
  | succ n => simp [bytes]

end Source

namespace LineIndex

open Source (Boundary Partial bytes exists_floor exists_lastLine lastLine newlinesBefore row)

/-! ## Starts of lines -/

theorem startsFrom_append (offset : Nat) (before after : Source) :
    startsFrom offset (before ++ after) =
      startsFrom offset before ++ startsFrom (offset + before.bytes) after := by
  induction before generalizing offset with
  | nil => rfl
  | cons c before ih =>
      simp only [List.cons_append, startsFrom, ih, Source.bytes_cons, Nat.add_assoc]
      split <;> rfl

theorem length_startsFrom (offset : Nat) (s : Source) :
    (startsFrom offset s).length = s.count '\n' := by
  induction s generalizing offset with
  | nil => rfl
  | cons c s ih =>
      rw [startsFrom, List.count_cons]
      by_cases hc : c = '\n' <;> simp [hc, ih]

/-- The row after some whole lines starts behind them. -/
theorem lineStart_ofSource {head : Source} (h : head = [] ∨ ∃ init, head = init ++ [ '\n' ])
    (rest : Source) : (ofSource (head ++ rest)).lineStart (head.count '\n') = head.bytes := by
  rcases h with rfl | ⟨init, rfl⟩
  · rfl
  · have hcount : (init ++ [ '\n' ]).count '\n' = (startsFrom 0 init).length + 1 := by
      rw [length_startsFrom, List.count_append]
      rfl
    rw [lineStart, ofSource, hcount, List.getElem?_cons_succ, List.append_assoc, startsFrom_append,
      List.getElem?_append_right (Nat.le_refl _), Nat.sub_self]
    simp [startsFrom]

/-! ## Positions -/

theorem column_of_slice? {x : LineIndex} {row offset : Nat} {chars : Source}
    (h : x.source.slice? (x.lineStart row) offset = some chars) :
    x.column row offset = chars.length := by
  rw [column, h]

theorem column_of_no_slice {x : LineIndex} {row offset : Nat}
    (h : x.source.slice? (x.lineStart row) offset = none) :
    x.column row offset = offset - x.lineStart row := by
  rw [column, h]

theorem column_ofSource {after : Source} {excess : Nat} (h : Partial after excess)
    (before : Source) :
    (ofSource (before ++ after)).column (before.count '\n') (before.bytes + excess) =
      Source.column (before ++ after) (before.bytes + excess) := by
  rcases exists_lastLine before with ⟨head, hbefore, hcount, hhead⟩
  have hbytes : before.bytes = head.bytes + bytes (lastLine [] before).reverse := by
    conv_lhs => rw [hbefore, Source.bytes_append]
  have hstart : (ofSource (before ++ after)).lineStart (before.count '\n') = head.bytes := by
    have hsplit : before ++ after = head ++ ((lastLine [] before).reverse ++ after) := by
      rw [← List.append_assoc, ← hbefore]
    rw [hcount, hsplit]
    exact lineStart_ofSource hhead _
  have hslice := Source.slice?_floor h head (lastLine [] before).reverse
  rw [← hbefore, ← hbytes, ← hstart] at hslice
  rw [Source.column_floor h]
  by_cases hzero : excess = 0
  · rw [if_pos hzero] at hslice
    rw [column_of_slice? hslice, if_pos hzero, List.length_reverse]
  · rw [if_neg hzero] at hslice
    rw [column_of_no_slice hslice, hstart, if_neg hzero, hbytes]
    omega

/-- The index gives an offset the position that the walk along the characters gives it. -/
theorem position?_row {s : Source} {offset : Nat} (h : row offset s + 1 < UInt32.size) :
    (ofSource s).position? (row offset s) offset = some (s.position offset) := by
  rcases exists_floor s offset with ⟨before, after, excess, rfl, rfl, hpartial⟩
  have hrow := Source.row_floor hpartial before
  have hword : (UInt32.ofNat (before.count '\n')).toNat = before.count '\n' :=
    UInt32.toNat_ofNat_of_lt' (by omega)
  rw [position?, hrow, column_ofSource hpartial, Position.ofZeroBased?, hword, if_pos (hrow ▸ h),
    Source.position, hrow]

theorem addressable_of_boundary {s : Source} {offset : Nat} (hshort : s.bytes < 4294967295)
    (h : s.Boundary offset) : s.Addressable offset := by
  rcases h.exists_append with ⟨before, after, rfl, rfl⟩
  have hcount : before.count '\n' ≤ before.bytes :=
    Nat.le_trans List.count_le_length (Source.length_le_bytes before)
  rw [Source.bytes_append] at hshort
  rw [Source.Addressable, Source.row_append]
  simp only [UInt32.size]
  omega

/-- In a text that is not too long, an offset between characters has the position that its newlines
and the characters behind the last of them make, which no word cuts short, and later offsets have
later positions. -/
theorem position?_inOrder (s : Source) (hshort : s.bytes < 4294967295) :
    (∀ offset, s.Boundary offset →
      (ofSource s).position? (s.newlinesBefore offset) offset = some (s.position offset) ∧
      (s.position offset).line.toNat = s.newlinesBefore offset + 1 ∧
      ∃ before after, s = before ++ after ∧ before.bytes = offset ∧
        (s.position offset).column.toNat = (before.reverse.takeWhile (· ≠ '\n')).length) ∧
    (∀ a b, s.Boundary a → s.Boundary b → a < b → s.position a < s.position b) ∧
    (∀ a b, s.Boundary a → s.Boundary b → s.position a = s.position b → a = b) := by
  have hlt : ∀ a b, s.Boundary a → s.Boundary b → a < b → s.position a < s.position b :=
    fun a b ha hb => Source.position_lt ha hb (addressable_of_boundary hshort hb)
  refine ⟨?_, hlt, ?_⟩
  · intro offset hoffset
    have haddress := addressable_of_boundary hshort hoffset
    have hindex := position?_row haddress.2
    rcases hoffset.exists_append with ⟨before, after, rfl, rfl⟩
    rcases Source.toNat_position haddress with ⟨hline, hcolumn⟩
    rw [Source.row_append] at hindex
    rw [Source.newlinesBefore_append]
    exact ⟨hindex, hline, before, after, rfl, rfl, by rw [hcolumn, Source.lastLine_eq_takeWhile]⟩
  · intro a b ha hb heq
    rcases Nat.lt_trichotomy a b with hab | hab | hab
    · exact absurd (heq ▸ hlt a b ha hb hab) (lt_irrefl _)
    · exact hab
    · exact absurd (heq ▸ hlt b a hb ha hab) (lt_irrefl _)

/-- Around a newline and a character of two bytes. -/
theorem position?_behind_newline :
    Source.bytes "é\nü".toList < 4294967295 ∧ Boundary "é\nü".toList 3 ∧ Boundary "é\nü".toList 5 ∧
      (ofSource "é\nü".toList).position? (newlinesBefore "é\nü".toList 5) 5 =
        some (Source.position "é\nü".toList 5) ∧
      Source.position "é\nü".toList 3 < Source.position "é\nü".toList 5 := by
  have hshort : Source.bytes "é\nü".toList < 4294967295 := by decide
  have hthree : Boundary "é\nü".toList 3 := by decide
  have hfive : Boundary "é\nü".toList 5 := by decide
  have hall := position?_inOrder _ hshort
  exact ⟨hshort, hthree, hfive, (hall.1 5 hfive).1, hall.2.1 3 5 hthree hfive (by decide)⟩

end LineIndex
end Concrete
end RubyIndex
