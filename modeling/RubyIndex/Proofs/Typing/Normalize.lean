import Mathlib.Data.List.TakeDrop
import RubyIndex.Proofs.Store.Dispatch
import RubyIndex.Proofs.Text.Split
import RubyIndex.Proofs.Typing.Printed

/-!
# Declared types stand for what they say

A declared type is read by counting brackets and by looking at the first and last characters of what
is left.  On the text of a type expression this comes to the types that the expression stands for,
at any depth of parentheses, unions and optional types.

* `parenthesised?_eq_some_iff`, `unionParts_append`, how a text is taken apart;
* `partTypes_around`, `partTypes_optional`, `partTypes_simple`, one rule for each sort of part;
* `ConstantPath.nominalTypes_append`, what is read of a path;
* `partTypes_print`, `unionTypes_print`, the types of an expression;
* `normalize_print`, the types of a declared type.
-/

namespace RubyIndex

namespace Typing

open Text (Edged)

variable {c : Char} {text rest piece : List Char}

theorem parenthesised?_eq_some_iff {inner : List Char} :
    parenthesised? text = some inner ↔ text = Bracket.round.around inner := by
  unfold parenthesised?
  rw [Option.bind_eq_some_iff]
  constructor
  · rintro ⟨rest, hrest, hinner⟩
    rw [← List.append_eq_of_isPrefixOf?_eq_some hrest,
      ← List.append_eq_of_isSuffixOf?_eq_some hinner]
    rfl
  · rintro rfl
    exact ⟨inner ++ [ ')' ], List.isPrefixOf?_eq_some_iff_append_eq.2 rfl,
      List.isSuffixOf?_eq_some_iff_append_eq.2 rfl⟩

theorem parenthesised?_eq_none (h : text.head? ≠ some '(' ∨ text.getLast? ≠ some ')') :
    parenthesised? text = none := by
  refine Option.eq_none_iff_forall_ne_some.2 ?_
  intro inner hinner
  rw [parenthesised?_eq_some_iff.1 hinner] at h
  rcases h with h | h
  · exact h rfl
  · exact h List.getLast?_concat

theorem unionParts_of_skips (h : Skips 0 piece) : unionParts piece = [Text.trim piece] := by
  have hsplit := h [] []
  rw [List.append_nil, List.append_nil] at hsplit
  simp [unionParts, Text.splitTop, hsplit, Text.splitTopFrom]

/-- The first part of a union ends at the first separator outside brackets. -/
theorem unionParts_append (h : Skips 0 piece) (rest : List Char) :
    unionParts (piece ++ '|' :: rest) = Text.trim piece :: unionParts rest := by
  simp [unionParts, Text.splitTop, h [] ('|' :: rest), Text.splitTopFrom]

/-! ## Types of a part -/

theorem unionTypes_eq (text : List Char) (receiver : String) :
    unionTypes text receiver = (unionParts text).flatMap fun part => partTypes part receiver := by
  rw [unionTypes]
  simp

theorem partTypes_around (inner : List Char) (receiver : String) :
    partTypes (Bracket.round.around inner) receiver = unionTypes inner receiver := by
  have hinner : parenthesised? (Bracket.round.around inner) = some inner :=
    parenthesised?_eq_some_iff.2 rfl
  rw [partTypes]
  split
  · rename_i found hfound
    rw [Option.some.inj (hinner.symm.trans hfound)]
  · rename_i hnone
    rw [hinner] at hnone
    cases hnone

theorem partTypes_optional (htext : Edged text) (gap : Blanks) (receiver : String) :
    partTypes (text ++ gap.text ++ [ '?' ]) receiver = partTypes text receiver ++ ["NilClass"] := by
  have hnone : parenthesised? (text ++ gap.text ++ [ '?' ]) = none :=
    parenthesised?_eq_none (Or.inr (by simp))
  have hoptional : List.isSuffixOf? [ '?' ] (text ++ gap.text ++ [ '?' ]) =
      some (text ++ gap.text) := List.isSuffixOf?_eq_some_iff_append_eq.2 rfl
  have htrim : Text.trim (text ++ gap.text) = text :=
    Text.trim_append htext gap.blank
  -- on the left only: the part without its `?` is read in the same way on the right
  conv_lhs => rw [partTypes]
  split
  · rename_i hsome
    rw [hnone] at hsome
    cases hsome
  · split
    · rename_i found hfound
      rw [← Option.some.inj (hoptional.symm.trans hfound), htrim]
    · rename_i hmissing
      rw [hoptional] at hmissing
      cases hmissing

theorem partTypes_simple (hfirst : text.head? ≠ some '(') (hlast : text.getLast? ≠ some '?')
    (receiver : String) : partTypes text receiver = simpleTypes text receiver := by
  have hnone := parenthesised?_eq_none (Or.inl hfirst)
  have hmissing : List.isSuffixOf? [ '?' ] text = none := by
    refine Option.eq_none_iff_forall_ne_some.2 ?_
    intro front hfront
    rw [← List.append_eq_of_isSuffixOf?_eq_some hfront] at hlast
    exact hlast List.getLast?_concat
  rw [partTypes]
  split
  · rename_i hsome
    rw [hnone] at hsome
    cases hsome
  · split
    · rename_i hsome
      rw [hmissing] at hsome
      cases hsome
    · rfl

theorem simpleTypes_word (w : Word) (receiver : String) :
    simpleTypes w.print receiver = w.denote receiver := by
  unfold simpleTypes
  rw [Word.print, String.ofList_toList]
  cases w with
  | classWord =>
      cases htarget : Name.metaclassTarget? receiver <;>
        simp [Word.text, wordTypes?, Word.denote, htarget]
  | _ => simp [Word.text, wordTypes?, Word.denote]

/-- Every word is written in small letters. -/
theorem wordTypes?_eq_none (hc : c ∈ text) (hlower : c.isLower = false) (receiver : String) :
    wordTypes? (String.ofList text) receiver = none := by
  have hother : ∀ word : String, word.toList.all Char.isLower = true →
      String.ofList text ≠ word := by
    rintro word hword rfl
    rw [String.toList_ofList, List.all_eq_true] at hword
    rw [hword c hc] at hlower
    cases hlower
  unfold wordTypes?
  split
  all_goals first
    | exact absurd ‹_› (hother _ (by decide))
    | rfl

theorem simpleTypes_literal (hc : c ∈ text) (hlower : c.isLower = false) {type : String}
    (htype : literalType? text = some type) (receiver : String) :
    simpleTypes text receiver = [type] := by
  simp [simpleTypes, wordTypes?_eq_none hc hlower, htype]

theorem simpleTypes_nominal (hc : c ∈ text) (hlower : c.isLower = false)
    (htype : literalType? text = none) (receiver : String) :
    simpleTypes text receiver = nominalTypes text := by
  simp [simpleTypes, wordTypes?_eq_none hc hlower, htype]

/-! ## Types of a path -/

theorem toNat_of_startsConstant (h : startsConstant c = true) :
    (65 ≤ c.toNat ∧ c.toNat ≤ 90) ∨ 128 ≤ c.toNat := by
  simp only [startsConstant, Bool.or_eq_true, Bool.and_eq_true, decide_eq_true_eq] at h
  rcases h with h | h
  · exact Or.inl (isUpper_iff.1 h)
  · exact Or.inr h.1

theorem not_isLower_of_starts (h : startsConstant c = true) : c.isLower = false := by
  have hrange := toNat_of_startsConstant h
  rw [Bool.eq_false_iff, Ne, isLower_iff]
  omega

/-- The first character of a constant does not tell a literal. -/
theorem literalType?_of_starts (h : startsConstant c = true) : literalType? (c :: text) = none := by
  have hdigit : c.isDigit = false := by
    have hrange := toNat_of_startsConstant h
    rw [Bool.eq_false_iff, Ne, Char.isDigit_iff_toNat]
    simp only [Char.reduceToNat]
    omega
  have hother : ∀ {d : Char} {rest : List Char}, startsConstant d = false →
      c :: text ≠ d :: rest := by
    intro d rest hd heq
    rw [(List.cons.inj heq).1, hd] at h
    cases h
  unfold literalType?
  split
  -- `::` tells no literal, and of the other patterns only the one for any character fits
  case h_6 => rfl
  case h_8 heq =>
    rw [← (List.cons.inj heq).1, hdigit]
    rfl
  case h_9 heq => cases heq
  all_goals exact absurd ‹_› (hother (by decide))

namespace ConstantPath

theorem name_eq (p : ConstantPath) : ∃ rest, p.name = p.first.first :: rest :=
  ⟨_, rfl⟩

theorem unrooted_append (p : ConstantPath) (rest : List Char) :
    unrooted (p.print ++ rest) = p.name ++ rest := by
  unfold unrooted print
  cases p.rooted with
  | true =>
      have hdrop : List.isPrefixOf? [ ':', ':' ] ("::".toList ++ p.name ++ rest) =
          some (p.name ++ rest) := List.isPrefixOf?_eq_some_iff_append_eq.2 (by simp)
      rw [if_pos rfl, hdrop, Option.getD_some]
  | false =>
      have hdrop : List.isPrefixOf? [ ':', ':' ] (p.name ++ rest) = none := by
        obtain ⟨tail, htail⟩ := p.name_eq
        have hne : ':' ≠ p.first.first := by
          intro heq
          have hstarts := p.first.starts
          rw [← heq] at hstarts
          cases hstarts
        refine Option.eq_none_iff_forall_ne_some.2 ?_
        intro after hafter
        have hstarts := List.append_eq_of_isPrefixOf?_eq_some hafter
        rw [htail] at hstarts
        exact hne (List.cons.inj hstarts).1
      rw [if_neg (by simp), List.nil_append, hdrop, Option.getD_none]

theorem literalType?_append (p : ConstantPath) (rest : List Char) :
    literalType? (p.print ++ rest) = none := by
  unfold print
  cases p.rooted with
  | true => rfl
  | false =>
      obtain ⟨tail, htail⟩ := p.name_eq
      rw [if_neg (by simp), List.nil_append, htail, List.cons_append]
      exact literalType?_of_starts p.first.starts

/-- A path does not begin like the word for class objects. -/
theorem isPrefixOf?_append_eq_none (p : ConstantPath) (rest : List Char) :
    "singleton(".toList.isPrefixOf? (p.print ++ rest) = none := by
  have hfirst : (p.print ++ rest).head? ≠ some 's' := by
    obtain ⟨tail, htail⟩ := p.name_eq
    unfold print
    cases p.rooted with
    | true => simp
    | false =>
        have hne : p.first.first ≠ 's' := by
          intro heq
          have hstarts := p.first.starts
          rw [heq] at hstarts
          cases hstarts
        simpa [htail] using hne
  refine Option.eq_none_iff_forall_ne_some.2 ?_
  intro target htarget
  rw [← List.append_eq_of_isPrefixOf?_eq_some htarget] at hfirst
  exact hfirst rfl

theorem nominalTypes_append (p : ConstantPath) (hrest : ∀ c ∈ rest.head?, c = '[') :
    nominalTypes (p.print ++ rest) = [String.ofList p.name] := by
  have hcut : (Text.cutAt (· == '[') (p.name ++ rest)).1 = p.name := by
    have hname : ∀ c ∈ p.name, (!(c == '[')) = true := by
      intro c hc
      have hne := (isPathChar_of_mem_name hc).ne (d := '[') (by simp)
      simpa using hne
    have hstop : rest.takeWhile (fun c => !(c == '[')) = [] := by
      cases rest with
      | nil => rfl
      | cons c rest => simp [hrest c rfl]
    rw [Text.cutAt, List.span_eq_takeWhile_dropWhile, List.takeWhile_append_of_pos hname, hstop,
      List.append_nil]
  have htrim : Text.trim p.name = p.name :=
    Text.trim_edged (edged_of_isPathChar (fun _ => isPathChar_of_mem_name) p.name_ne_nil)
  unfold nominalTypes
  rw [p.isPrefixOf?_append_eq_none, Option.bind_none]
  simp [p.unrooted_append, hcut, htrim, p.name_ne_nil]

theorem nominalTypes_singleton (p : ConstantPath) :
    nominalTypes p.printSingleton = [Name.metaclass (String.ofList p.name)] := by
  have htarget : ("singleton(".toList.isPrefixOf? p.printSingleton).bind
      (List.isSuffixOf? [ ')' ]) = some p.print := by
    refine Option.bind_eq_some_iff.2 ⟨p.print ++ [ ')' ], ?_, ?_⟩
    · exact List.isPrefixOf?_eq_some_iff_append_eq.2 rfl
    · exact List.isSuffixOf?_eq_some_iff_append_eq.2 rfl
  have htrim : Text.trim p.print = p.print := Text.trim_edged p.edged_print
  have hname := p.unrooted_append []
  rw [List.append_nil, List.append_nil] at hname
  unfold nominalTypes
  rw [htarget]
  simp only [htrim, hname]

end ConstantPath

/-! ## Types of an expression -/

theorem head?_ne_of_isPathChar (h : ∀ c ∈ text, IsPathChar c) (hne : text ≠ [])
    (rest : List Char) : (text ++ rest).head? ≠ some '(' := by
  obtain ⟨c, tail, rfl⟩ := List.exists_cons_of_ne_nil hne
  rw [List.forall_mem_cons] at h
  intro heq
  exact h.1.ne (by simp) (Option.some.inj heq)

theorem getLast?_ne_of_isPathChar (h : ∀ c ∈ text, IsPathChar c) : text.getLast? ≠ some '?' := by
  intro heq
  exact (h '?' (List.mem_of_getLast? heq)).ne (by simp) rfl

theorem getLast?_around_ne (text : List Char) (b : Bracket) (inner : List Char) :
    (text ++ b.around inner).getLast? ≠ some '?' := by
  have hlast : (text ++ b.around inner).getLast? = some b.closing := by
    rw [Bracket.around, ← List.append_assoc]
    exact List.getLast?_concat
  rw [hlast]
  cases b <;> decide

theorem partTypes_path (p : ConstantPath) (arguments : Option Content) (receiver : String) :
    partTypes (TypeExpr.path p arguments).print receiver = [String.ofList p.name] := by
  rw [TypeExpr.print]
  have hfirst := head?_ne_of_isPathChar (fun _ => ConstantPath.isPathChar_of_mem) p.print_ne_nil
  have hmem : ∀ rest, p.first.first ∈ p.print ++ rest := by
    intro rest
    simp [ConstantPath.print, ConstantPath.name, ConstantName.print]
  have hlower := not_isLower_of_starts p.first.starts
  -- with or without arguments, the text is read as a name up to the first bracket
  have hnominal : ∀ rest : List Char, (∀ c ∈ rest.head?, c = '[') →
      (p.print ++ rest).getLast? ≠ some '?' →
        partTypes (p.print ++ rest) receiver = [String.ofList p.name] := by
    intro rest hrest hlast
    rw [partTypes_simple (hfirst rest) hlast,
      simpleTypes_nominal (hmem rest) hlower (p.literalType?_append rest),
      p.nominalTypes_append hrest]
  cases arguments with
  | none =>
      refine hnominal [] (by simp) ?_
      rw [List.append_nil]
      exact getLast?_ne_of_isPathChar fun _ => ConstantPath.isPathChar_of_mem
  | some content =>
      refine hnominal _ ?_ (getLast?_around_ne _ _ _)
      intro c hc
      cases hc
      rfl

theorem partTypes_word (w : Word) (receiver : String) :
    partTypes w.print receiver = w.denote receiver := by
  have hchars : ∀ c ∈ w.print, IsPathChar c := fun _ => Word.isPathChar_of_mem
  have hfirst := head?_ne_of_isPathChar hchars (by cases w <;> decide) []
  rw [List.append_nil] at hfirst
  rw [partTypes_simple hfirst (getLast?_ne_of_isPathChar hchars), simpleTypes_word]

theorem partTypes_singleton (p : ConstantPath) (receiver : String) :
    partTypes p.printSingleton receiver = [Name.metaclass (String.ofList p.name)] := by
  have hfirst : p.printSingleton.head? ≠ some '(' :=
    head?_ne_of_isPathChar (fun _ => isPathChar_of_mem_singleton) (by decide) _
  have hbracket : '(' ∈ p.printSingleton := List.mem_append_right _ List.mem_cons_self
  have hliteral : literalType? p.printSingleton = none := by
    obtain ⟨tail, htail⟩ : ∃ tail, p.printSingleton = 's' :: tail := ⟨_, rfl⟩
    rw [htail]
    rfl
  rw [partTypes_simple hfirst (getLast?_around_ne _ _ _),
    simpleTypes_nominal hbracket (by decide) hliteral, p.nominalTypes_singleton]

/-- A tuple or a record is told by its first character. -/
theorem partTypes_literal {b : Bracket} {type : String} {inner : List Char} (hb : b ≠ .round)
    (htype : literalType? (b.around inner) = some type) (receiver : String) :
    partTypes (b.around inner) receiver = [type] := by
  have hfirst : (b.around inner).head? ≠ some '(' := by
    cases b with
    | round => exact absurd rfl hb
    | _ => simp [Bracket.around, Bracket.opening]
  have hopening : b.opening ∈ b.around inner := List.mem_cons_self
  have hlower : b.opening.isLower = false := by cases b <;> decide
  rw [partTypes_simple hfirst (getLast?_around_ne [] b inner),
    simpleTypes_literal hopening hlower htype]

-- along the expression; a group is read as a union, and each type of a union as a part

mutual

theorem partTypes_print (receiver : String) :
    ∀ e : TypeExpr, partTypes e.print receiver = e.denote receiver
  | .path p arguments => by
      rw [TypeExpr.denote]
      exact partTypes_path p arguments receiver
  | .word w => by
      rw [TypeExpr.print, TypeExpr.denote]
      exact partTypes_word w receiver
  | .singleton p => by
      rw [TypeExpr.print, TypeExpr.denote]
      exact partTypes_singleton p receiver
  | .tuple content => by
      rw [TypeExpr.print, TypeExpr.denote]
      exact partTypes_literal (by simp) rfl receiver
  | .record content => by
      rw [TypeExpr.print, TypeExpr.denote]
      exact partTypes_literal (by simp) rfl receiver
  | .group u => by
      rw [TypeExpr.print, TypeExpr.denote, partTypes_around]
      exact unionTypes_print receiver u
  | .optional e gap => by
      rw [TypeExpr.print, TypeExpr.denote, partTypes_optional e.edged_print,
        partTypes_print receiver e]

theorem unionTypes_print (receiver : String) :
    ∀ u : UnionExpr, unionTypes u.print receiver = u.denote receiver
  | .one before e after => by
      have hskips : Skips 0 (before.text ++ e.print ++ after.text) :=
        (before.skips.append (e.skips_print (Int.le_refl 0))).append after.skips
      have htrim := Text.trim_blanks before.blank e.edged_print after.blank
      rw [UnionExpr.print, UnionExpr.denote, unionTypes_eq, unionParts_of_skips hskips, htrim,
        List.flatMap_singleton, partTypes_print receiver e]
  | .more before e after rest => by
      have hskips : Skips 0 (before.text ++ e.print ++ after.text) :=
        (before.skips.append (e.skips_print (Int.le_refl 0))).append after.skips
      have htrim := Text.trim_blanks before.blank e.edged_print after.blank
      rw [UnionExpr.print, UnionExpr.denote, unionTypes_eq, unionParts_append hskips, htrim,
        List.flatMap_cons, ← unionTypes_eq, partTypes_print receiver e,
        unionTypes_print receiver rest]

end

/-- The types read off the text of an expression are those that the expression stands for. -/
theorem normalize_print (receiver : String) :
    (∀ u : UnionExpr, normalize (String.ofList u.print) receiver = u.denote receiver) ∧
      ∀ e : TypeExpr, normalize (String.ofList e.print) receiver = e.denote receiver := by
  have hunion : ∀ u : UnionExpr,
      normalize (String.ofList u.print) receiver = u.denote receiver := by
    intro u
    rw [normalize, String.toList_ofList]
    exact unionTypes_print receiver u
  refine ⟨hunion, ?_⟩
  intro e
  have hone := hunion (.one .none e .none)
  simpa [UnionExpr.print, UnionExpr.denote, Blanks.none] using hone

/-- The text and the types of an optional union in parentheses. -/
example :
    let path : TypeExpr := .path ⟨true, ⟨'A', [], by decide, by simp⟩, []⟩ none
    let space : Blanks := ⟨[ ' ' ], List.forall_mem_singleton.2 rfl⟩
    let union : UnionExpr := .more .none path space (.one space (.word .selfWord) .none)
    let optional : TypeExpr := .optional (.group union) .none
    optional.print = "(::A | self)?".toList ∧ optional.denote "B" = ["A", "B", "NilClass"] := by
  decide

end Typing
end RubyIndex
