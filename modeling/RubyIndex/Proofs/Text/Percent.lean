import Mathlib.Data.List.Basic
import RubyIndex.Text.Percent
import RubyIndex.Proofs.MessagePack.RoundTrip

/-!
# The URI tells the file

Each byte of a segment is written as itself or as `%` with two digits, and what is written tells
which byte it was and where it ends.  No slash is written for a byte, so the slashes of a URI are
those between the segments.

* `Text.percentByte_append_inj`, the first byte can be read off the front;
* `Text.percentEncode_injective`, segments;
* `Text.fileUri_inj`, paths with at least one segment.
-/

namespace RubyIndex
namespace Text

/-! ## Digits -/

theorem hexDigit_inj : ∀ m < 16, ∀ n < 16, hexDigit m = hexDigit n → m = n := by
  decide

theorem hexDigit_ne_slash : ∀ n < 16, hexDigit n ≠ '/' := by
  decide

/-! ## Bytes -/

/-- Whether a byte is written with digits. -/
def Escaped (b : UInt8) : Prop :=
  b.toNat < 32 ∨ 126 < b.toNat ∨ reserved.contains (Char.ofNat b.toNat) = true

theorem percentByte_of_escaped {b : UInt8} (h : Escaped b) :
    percentByte b = ['%', hexDigit (b.toNat / 16), hexDigit (b.toNat % 16)] :=
  if_pos h

theorem percentByte_of_not_escaped {b : UInt8} (h : ¬Escaped b) :
    percentByte b = [Char.ofNat b.toNat] :=
  if_neg h

/-- The character of a byte that is written as itself. -/
theorem toNat_of_not_escaped {b : UInt8} (h : ¬Escaped b) :
    (Char.ofNat b.toNat).toNat = b.toNat ∧ Char.ofNat b.toNat ∉ reserved := by
  unfold Escaped at h
  simp only [not_or, Bool.not_eq_true, List.contains_eq_mem, decide_eq_false_iff_not] at h
  have hvalid : b.toNat.isValidChar := Or.inl (by omega)
  have hbyte : (Char.ofNat b.toNat).toNat = b.toNat := by
    unfold Char.ofNat
    rw [dif_pos hvalid]
    rfl
  exact ⟨hbyte, h.2.2⟩

/-- What is written for a byte can be taken off the front. -/
theorem percentByte_append_inj {a b : UInt8} {l m : List Char}
    (h : percentByte a ++ l = percentByte b ++ m) : a = b ∧ l = m := by
  by_cases ha : Escaped a
  · rw [percentByte_of_escaped ha] at h
    by_cases hb : Escaped b
    · rw [percentByte_of_escaped hb] at h
      simp only [List.cons_append, List.nil_append, List.cons.injEq, true_and] at h
      rcases h with ⟨hhigh, hlow, hrest⟩
      -- both digits agree, so the numbers do
      have := a.toNat_lt
      have := b.toNat_lt
      have hdiv := hexDigit_inj _ (by omega) _ (by omega) hhigh
      have hmod := hexDigit_inj _ (by omega) _ (by omega) hlow
      exact ⟨UInt8.toNat_inj.1 (by omega), hrest⟩
    · -- a byte that is written as itself is no percent sign
      rw [percentByte_of_not_escaped hb] at h
      have hhead := (List.cons.inj h).1
      exact absurd (hhead ▸ by decide) (toNat_of_not_escaped hb).2
  · rw [percentByte_of_not_escaped ha] at h
    by_cases hb : Escaped b
    · rw [percentByte_of_escaped hb] at h
      have hhead := (List.cons.inj h).1
      exact absurd (hhead ▸ by decide) (toNat_of_not_escaped ha).2
    · rw [percentByte_of_not_escaped hb] at h
      rcases List.cons.inj h with ⟨hhead, hrest⟩
      have htoNat := congrArg Char.toNat hhead
      rw [(toNat_of_not_escaped ha).1, (toNat_of_not_escaped hb).1] at htoNat
      exact ⟨UInt8.toNat_inj.1 htoNat, hrest⟩

theorem percentByte_ne_nil (b : UInt8) : percentByte b ≠ [] := by
  by_cases h : Escaped b
  · simp [percentByte_of_escaped h]
  · simp [percentByte_of_not_escaped h]

theorem slash_not_mem_percentByte (b : UInt8) : '/' ∉ percentByte b := by
  have := b.toNat_lt
  by_cases h : Escaped b
  · have hhigh := hexDigit_ne_slash (b.toNat / 16) (by omega)
    have hlow := hexDigit_ne_slash (b.toNat % 16) (by omega)
    simp [percentByte_of_escaped h, hhigh.symm, hlow.symm]
  · rw [percentByte_of_not_escaped h, List.mem_singleton]
    intro heq
    exact absurd (heq ▸ by decide) (toNat_of_not_escaped h).2

/-! ## Segments and paths -/

theorem flatMap_percentByte_inj {l m : List UInt8}
    (h : l.flatMap percentByte = m.flatMap percentByte) : l = m := by
  induction l generalizing m with
  | nil =>
      cases m with
      | nil => rfl
      | cons b m => simp [percentByte_ne_nil] at h
  | cons a l ih =>
      cases m with
      | nil => simp [percentByte_ne_nil] at h
      | cons b m =>
          rw [List.flatMap_cons, List.flatMap_cons] at h
          rcases percentByte_append_inj h with ⟨rfl, hrest⟩
          rw [ih hrest]

theorem utf8_injective : Function.Injective utf8 := by
  intro s t h
  have hs := ofUtf8?_utf8 s
  rw [h, ofUtf8?_utf8] at hs
  exact (Option.some.inj hs).symm

theorem percentEncode_injective : Function.Injective percentEncode := by
  intro s t h
  have hbytes : (utf8 s).flatMap percentByte = (utf8 t).flatMap percentByte := by
    simpa [percentEncode] using congrArg String.toList h
  exact utf8_injective (flatMap_percentByte_inj hbytes)

/-- The segments can be told apart in a URI, since none of them is written with a slash. -/
theorem splitOn_fileUri {path : List String} (h : path ≠ []) :
    ("/".intercalate (path.map percentEncode)).toList.splitOn '/' =
      (path.map percentEncode).map String.toList := by
  rw [String.toList_intercalate]
  apply List.splitOn_intercalate
  · intro l hl
    rcases List.mem_map.1 hl with ⟨s, hs, rfl⟩
    rcases List.mem_map.1 hs with ⟨segment, _, rfl⟩
    intro hslash
    rw [percentEncode, String.toList_ofList] at hslash
    rcases List.mem_flatMap.1 hslash with ⟨b, _, hb⟩
    exact slash_not_mem_percentByte b hb
  · simpa using h

/-- Paths with a segment have different URIs. -/
theorem fileUri_inj {path path' : List String} (hpath : path ≠ []) (hpath' : path' ≠ [])
    (h : fileUri path = fileUri path') : path = path' := by
  have htail : "/".intercalate (path.map percentEncode) =
      "/".intercalate (path'.map percentEncode) := by
    unfold fileUri at h
    have hchars := congrArg String.toList h
    rw [String.toList_append, String.toList_append] at hchars
    exact String.toList_inj.1 (List.append_cancel_left hchars)
  have hsegments : (path.map percentEncode).map String.toList =
      (path'.map percentEncode).map String.toList := by
    rw [← splitOn_fileUri hpath, htail, splitOn_fileUri hpath']
  have hencoded := List.map_injective_iff.mpr (fun _ _ => String.toList_inj.1) hsegments
  exact List.map_injective_iff.mpr percentEncode_injective hencoded

end Text
end RubyIndex
