import Mathlib.Data.List.Infix
import Mathlib.Data.List.TakeDrop
import Mathlib.Data.List.TakeWhile
import RubyIndex.Proofs.Declaration.TypeList
import RubyIndex.Proofs.Text.Lines
import RubyIndex.Proofs.Typing.Expression

/-!
# Doc comments say what was written

The lines that doc comments are written with, and what a comment of such lines says: the parameters
and the return types of its tags, in order, and its free text.

* `CommentLine`, free text, the two tags of parameters, the tag of return types, and other tags;
* `MatchesParameter`, `MatchesReturn`, the patterns of tags;
* `splitTypes_printTypes`, the names in a list of types;
* `read_print`, what is read of a line;
* `parse_print`, what is read of a comment.
-/

namespace RubyIndex
namespace Declaration

open Typing (Blanks)

/-! ## Parts of lines -/

/-- One or more blanks. -/
structure Gap extends Blanks where
  ne_nil : text ≠ []

def Gap.one : Gap :=
  ⟨⟨[' '], List.all_eq_true.1 rfl⟩, List.cons_ne_nil _ _⟩

/-- The name of a parameter in a tag. -/
structure TagName where
  text : List Char
  word : ∀ c ∈ text, Text.isWord c = true
  ne_nil : text ≠ []

/-- A name in a list of types, with the blanks around it. -/
structure ListedName where
  before : Blanks
  name : TypeName
  after : Blanks

namespace ListedName

def print (n : ListedName) : List Char :=
  n.before.text ++ n.name.text ++ n.after.text

/-- The type as signatures show it. -/
def type (n : ListedName) : String :=
  if n.name.text = "Boolean".toList then "bool" else String.ofList n.name.text

end ListedName

/-- A list of types, in the brackets of a tag. -/
def printTypes (types : List ListedName) : List Char :=
  Text.joinWith [','] (types.map ListedName.print)

/-! ## Patterns -/

/-- A trimmed line that declares a parameter, with its types in front of the name or behind it. -/
def MatchesParameter (line : List Char) : Prop :=
  ∃ (gap gap' : Gap) (name : TagName) (types rest : List Char), ']' ∉ types ∧
    (line = "@param".toList ++ gap.text ++ '[' :: types ++ ']' :: gap'.text ++ name.text ++ rest ∨
      line = "@param".toList ++ gap.text ++ name.text ++ gap'.text ++ '[' :: types ++ ']' :: rest)

/-- A trimmed line that declares return types. -/
def MatchesReturn (line : List Char) : Prop :=
  ∃ (gap : Gap) (types rest : List Char), ']' ∉ types ∧
    line = "@return".toList ++ gap.text ++ '[' :: types ++ ']' :: rest

theorem MatchesParameter.begins {line : List Char} (h : MatchesParameter line) :
    "@param".toList <+: line := by
  obtain ⟨_, _, _, _, _, -, rfl | rfl⟩ := h
  · simp only [List.append_assoc]
    exact List.prefix_append _ _
  · simp only [List.append_assoc]
    exact List.prefix_append _ _

theorem MatchesReturn.begins {line : List Char} (h : MatchesReturn line) :
    "@return".toList <+: line := by
  obtain ⟨_, _, _, -, rfl⟩ := h
  simp only [List.append_assoc]
  exact List.prefix_append _ _

/-! ## Lines -/

/-- The first character of a line that is no blank. -/
def firstInk (line : List Char) : Option Char :=
  line.find? fun c => !Text.isBlank c

/-- A line of a doc comment. -/
inductive CommentLine
  | text (line : List Char) (free : firstInk line ≠ some '@')
  | nameFirst (indent : Blanks) (gap : Gap) (name : TagName) (gap' : Gap)
      (types : List ListedName) (rest : List Char)
  | typesFirst (indent : Blanks) (gap : Gap) (types : List ListedName) (gap' : Gap)
      (name : TagName) (rest : List Char) (ends : ∀ c ∈ rest.head?, Text.isWord c = false)
  | returns (indent : Blanks) (gap : Gap) (types : List ListedName) (rest : List Char)
  | otherTag (line : List Char) (tag : firstInk line = some '@')
      (noParameter : ¬ MatchesParameter (Text.trim line))
      (noReturn : ¬ MatchesReturn (Text.trim line))

namespace CommentLine

def print : CommentLine → List Char
  | text line _ => line
  | nameFirst indent gap name gap' types rest =>
      indent.text ++
        ("@param".toList ++ gap.text ++ name.text ++ gap'.text ++ '[' :: printTypes types ++ [']']) ++
        rest
  | typesFirst indent gap types gap' name rest _ =>
      indent.text ++
        ("@param".toList ++ gap.text ++ '[' :: printTypes types ++ ']' :: gap'.text ++ name.text) ++
        rest
  | returns indent gap types rest =>
      indent.text ++ ("@return".toList ++ gap.text ++ '[' :: printTypes types ++ [']']) ++ rest
  | otherTag line _ _ _ => line

/-- The parameter that a line declares. -/
def parameter? : CommentLine → Option Parameter
  | nameFirst _ _ name _ types _ | typesFirst _ _ types _ name _ _ =>
      some ⟨String.ofList name.text, types.map ListedName.type⟩
  | _ => none

/-- The return types that a line declares. -/
def returnTypes : CommentLine → List String
  | returns _ _ types _ => types.map ListedName.type
  | _ => []

/-- What a line adds to the description. -/
def text? : CommentLine → Option (List Char)
  | text line _ => some line
  | _ => none

end CommentLine

/-! ## Characters -/

section Characters

variable {c : Char}

/-- The code points of blanks. -/
theorem mem_of_isBlank (h : Text.isBlank c = true) :
    c.toNat ∈ List.range' 9 5 ++ [0x20, 0x85, 0xA0, 0x1680] ++ List.range' 0x2000 11 ++
      [0x2028, 0x2029, 0x202F, 0x205F, 0x3000] := by
  simp only [Text.isBlank, Bool.or_eq_true, Bool.and_eq_true, decide_eq_true_eq, beq_iff_eq] at h
  simp only [List.mem_append, List.mem_range'_1, List.mem_cons, List.not_mem_nil, or_false]
  omega

theorem not_isWord_of_isBlank (h : Text.isBlank c = true) : Text.isWord c = false := by
  have hall : ∀ n ∈ List.range' 9 5 ++ [0x20, 0x85, 0xA0, 0x1680] ++ List.range' 0x2000 11 ++
      [0x2028, 0x2029, 0x202F, 0x205F, 0x3000], Text.inRanges Text.wordRanges n = false := by
    decide +kernel
  exact hall _ (mem_of_isBlank h)

theorem isPlain_of_isBlank (h : Text.isBlank c = true) : isPlain c = true := by
  have hspecial : List.all [ ',', '<', '>', '(', ')', '[', ']', '\x7b', '\x7d' ]
      (fun d => !Text.isBlank d) = true := rfl
  by_contra hc
  simp only [isPlain, Bool.not_eq_true', List.contains_eq_mem, decide_eq_false_iff_not,
    not_not] at hc
  have hblank := List.all_eq_true.1 hspecial c hc
  rw [h] at hblank
  cases hblank

end Characters

/-! ## Lists of names -/

namespace ListedName

theorem isPlain_of_mem {n : ListedName} {c : Char} (h : c ∈ n.print) : isPlain c = true := by
  rcases List.mem_append.1 h with h | h
  · rcases List.mem_append.1 h with h | h
    · exact isPlain_of_isBlank (n.before.blank c h)
    · exact n.name.plain c h
  · exact isPlain_of_isBlank (n.after.blank c h)

theorem trim_print (n : ListedName) : Text.trim n.print = n.name.text :=
  Text.trim_blanks n.before.blank n.name.edged n.after.blank

/-- Only the name of truth values is shown in another way. -/
theorem signatureType_text (n : ListedName) :
    String.ofList (signatureType n.name.text) = n.type := by
  unfold signatureType type
  split
  · rfl
  · have hself : (n.name.text.map fun c => if c = '<' then '[' else if c = '>' then ']' else c) =
        n.name.text := by
      refine (List.map_congr_left ?_).trans (List.map_id _)
      intro c hc
      have hplain := n.name.plain c hc
      have hless : c ≠ '<' := by rintro rfl; exact absurd hplain (by decide)
      have hgreater : c ≠ '>' := by rintro rfl; exact absurd hplain (by decide)
      rw [if_neg hless, if_neg hgreater]
      rfl
    rw [hself]

theorem uncut_print (n : ListedName) : Text.Uncut typeBrackets ',' 0 n.print :=
  Text.uncut_of_not_mem fun h => absurd (isPlain_of_mem h) (by decide)

theorem level_print (n : ListedName) : typeBrackets.level n.print = 0 :=
  Text.Brackets.level_eq_zero fun _ h => weight_of_isPlain (isPlain_of_mem h)

theorem entriesOf_print (n : ListedName) (parts : List (List Char)) :
    entriesOf (n.print :: parts) = n.type :: entriesOf parts := by
  obtain ⟨c, rest, htext, -⟩ := n.name.exists_cons
  have hne : Text.trim n.print ≠ [] := by
    rw [n.trim_print, htext]
    exact List.cons_ne_nil c rest
  rw [entriesOf_cons hne, n.trim_print, n.signatureType_text]

end ListedName

/-- The types of a list are its names, in order. -/
theorem splitTypes_printTypes (types : List ListedName) :
    splitTypes (printTypes types) = types.map ListedName.type := by
  induction types with
  | nil => rfl
  | cons n types ih =>
      cases types with
      | nil =>
          have hone : printTypes [n] = n.print := rfl
          rw [hone, splitTypes_eq, Text.splitTop_of_uncut n.uncut_print, n.entriesOf_print]
          rfl
      | cons next types =>
          have hmore : printTypes (n :: next :: types) =
              n.print ++ ',' :: printTypes (next :: types) := by
            simp [printTypes, Text.joinWith]
          rw [hmore, splitTypes_eq, Text.splitTop_append n.uncut_print n.level_print,
            n.entriesOf_print, ← splitTypes_eq, ih]
          rfl

theorem mem_joinWith {separator : List Char} {rows : List (List Char)} {c : Char}
    (h : c ∈ Text.joinWith separator rows) : c ∈ separator ∨ ∃ row ∈ rows, c ∈ row := by
  induction rows with
  | nil => cases h
  | cons row rows ih =>
      cases rows with
      | nil => exact Or.inr ⟨row, List.mem_singleton_self row, h⟩
      | cons next rows =>
          simp only [Text.joinWith, List.mem_append] at h
          rcases h with (h | h) | h
          · exact Or.inr ⟨row, List.mem_cons_self, h⟩
          · exact Or.inl h
          · refine (ih h).imp_right ?_
            rintro ⟨later, hlater, hc⟩
            exact ⟨later, List.mem_cons_of_mem _ hlater, hc⟩

theorem bracket_not_mem_printTypes (types : List ListedName) : ']' ∉ printTypes types := by
  intro h
  rcases mem_joinWith h with h | ⟨row, hrow, h⟩
  · exact absurd h (by decide)
  · obtain ⟨n, -, rfl⟩ := List.mem_map.1 hrow
    exact absurd (ListedName.isPlain_of_mem h) (by decide)

/-! ## Parts of tags -/

/-- A text up to where a property ends. -/
theorem span_append {p : Char → Bool} {text rest : List Char} (htext : ∀ c ∈ text, p c = true)
    (hrest : ∀ c ∈ rest.head?, p c = false) : (text ++ rest).span p = (text, rest) := by
  rw [List.span_eq_takeWhile_dropWhile, List.takeWhile_append_of_pos htext,
    List.dropWhile_append_of_pos htext]
  cases rest with
  | nil => simp
  | cons c rest =>
      have hc := hrest c rfl
      rw [List.takeWhile_cons_of_neg (by simp [hc]), List.dropWhile_cons_of_neg (by simp [hc]),
        List.append_nil]

theorem word?_append (name : TagName) (rest : List Char)
    (hrest : ∀ c ∈ rest.head?, Text.isWord c = false) :
    word? (name.text ++ rest) = some (name.text, rest) := by
  unfold word?
  rw [span_append name.word hrest]
  split
  · rename_i hnil
    exact absurd (Prod.mk.inj hnil).1 name.ne_nil
  · rfl

theorem bracketed?_append {types : List Char} (htypes : ']' ∉ types) (rest : List Char) :
    bracketed? ('[' :: types ++ ']' :: rest) = some (types, rest) := by
  have hcut : Text.cutAt (· == ']') (types ++ ']' :: rest) = (types, ']' :: rest) := by
    refine span_append ?_ (by simp)
    intro c hc
    have hne : c ≠ ']' := fun h => htypes (h ▸ hc)
    simp [hne]
  rw [List.cons_append, bracketed?, hcut]

theorem blanks?_append (gap : Gap) (rest : List Char)
    (hrest : ∃ c ∈ rest.head?, Text.isBlank c = false) :
    blanks? (gap.text ++ rest) = some rest := by
  obtain ⟨⟨text, hblank⟩, hne⟩ := gap
  cases text with
  | nil => exact absurd rfl hne
  | cons c text =>
      obtain ⟨hc, htext⟩ := List.forall_mem_cons.1 hblank
      have hdrop := Text.dropWhile_isBlank htext hrest
      simp [blanks?, hc, hdrop]

theorem tag?_append (tag : String) (gap : Gap) (rest : List Char)
    (hrest : ∃ c ∈ rest.head?, Text.isBlank c = false) :
    tag? tag (tag.toList ++ gap.text ++ rest) = some rest := by
  have hafter : tag.toList.isPrefixOf? (tag.toList ++ (gap.text ++ rest)) =
      some (gap.text ++ rest) := List.isPrefixOf?_eq_some_iff_append_eq.2 rfl
  rw [tag?, List.append_assoc, hafter, Option.bind_some, blanks?_append gap rest hrest]

/-! ## Matches -/

section Matches

variable {text rest line types : List Char}

theorem exists_gap_of_blanks? (h : blanks? text = some rest) :
    ∃ gap : Gap, text = gap.text ++ rest := by
  cases text with
  | nil => cases h
  | cons c text =>
      simp only [blanks?, Option.ite_none_right_eq_some, Option.some.injEq] at h
      obtain ⟨hc, rfl⟩ := h
      have hblank : ∀ d ∈ c :: text.takeWhile Text.isBlank, Text.isBlank d = true :=
        List.forall_mem_cons.2 ⟨hc, fun _ hd => List.mem_takeWhile_imp hd⟩
      refine ⟨⟨⟨_, hblank⟩, List.cons_ne_nil _ _⟩, ?_⟩
      rw [List.cons_append, List.takeWhile_append_dropWhile]

theorem exists_gap_of_tag? {tag : String} (h : tag? tag line = some rest) :
    ∃ gap : Gap, line = tag.toList ++ gap.text ++ rest := by
  obtain ⟨after, hafter, hblanks⟩ := Option.bind_eq_some_iff.1 h
  obtain ⟨gap, rfl⟩ := exists_gap_of_blanks? hblanks
  exact ⟨gap, by rw [List.append_assoc, List.append_eq_of_isPrefixOf?_eq_some hafter]⟩

theorem eq_of_bracketed? (h : bracketed? text = some (types, rest)) :
    ']' ∉ types ∧ text = '[' :: types ++ ']' :: rest := by
  unfold bracketed? at h
  split at h
  · rename_i inner
    split at h
    · rename_i found c after hcut
      cases h
      rw [Text.cutAt, List.span_eq_takeWhile_dropWhile, Prod.mk.injEq] at hcut
      obtain ⟨rfl, hdrop⟩ := hcut
      have hstop := List.head?_dropWhile_not (fun c => !(c == ']')) inner
      rw [hdrop] at hstop
      obtain rfl : c = ']' := by simpa using hstop
      constructor
      · intro hmem
        simpa using List.mem_takeWhile_imp hmem
      · rw [List.cons_append, ← hdrop, List.takeWhile_append_dropWhile]
    · cases h
  · cases h

theorem exists_name_of_word? {word : List Char} (h : word? text = some (word, rest)) :
    ∃ name : TagName, name.text = word ∧ text = word ++ rest := by
  unfold word? at h
  split at h
  · cases h
  · rename_i found hne
    have hspan := Option.some.inj h
    rw [List.span_eq_takeWhile_dropWhile, Prod.mk.injEq] at hspan
    obtain ⟨rfl, rfl⟩ := hspan
    refine ⟨⟨_, fun c hc => List.mem_takeWhile_imp hc, ?_⟩, rfl, ?_⟩
    · intro hnil
      exact hne _ (by rw [List.span_eq_takeWhile_dropWhile, hnil])
    · rw [List.takeWhile_append_dropWhile]

theorem matches_of_parameterTag? {p : Parameter} (h : parameterTag? line = some p) :
    MatchesParameter line := by
  obtain ⟨after, htag, hfound⟩ := Option.bind_eq_some_iff.1 h
  obtain ⟨gap, rfl⟩ := exists_gap_of_tag? htag
  obtain ⟨⟨name, types⟩, hname, -⟩ := Option.bind_eq_some_iff.1 hfound
  cases hfirst : typesFirst? after with
  | some found =>
      obtain ⟨⟨types', rest⟩, hbracketed, hfirst⟩ := Option.bind_eq_some_iff.1 hfirst
      obtain ⟨rest', hblanks, hfirst⟩ := Option.bind_eq_some_iff.1 hfirst
      obtain ⟨⟨word, rest''⟩, hword, -⟩ := Option.bind_eq_some_iff.1 hfirst
      obtain ⟨htypes, rfl⟩ := eq_of_bracketed? hbracketed
      obtain ⟨gap', rfl⟩ := exists_gap_of_blanks? hblanks
      obtain ⟨name', rfl, rfl⟩ := exists_name_of_word? hword
      exact ⟨gap, gap', name', types', rest'', htypes, Or.inl (by simp)⟩
  | none =>
      rw [hfirst] at hname
      obtain ⟨⟨word, rest⟩, hword, hname⟩ := Option.bind_eq_some_iff.1 hname
      obtain ⟨rest', hblanks, hname⟩ := Option.bind_eq_some_iff.1 hname
      obtain ⟨⟨types', rest''⟩, hbracketed, -⟩ := Option.bind_eq_some_iff.1 hname
      obtain ⟨name', rfl, rfl⟩ := exists_name_of_word? hword
      obtain ⟨gap', rfl⟩ := exists_gap_of_blanks? hblanks
      obtain ⟨htypes, rfl⟩ := eq_of_bracketed? hbracketed
      exact ⟨gap, gap', name', types', rest'', htypes, Or.inr (by simp)⟩

theorem matches_of_returnTag? {returned : List String} (h : returnTag? line = some returned) :
    MatchesReturn line := by
  obtain ⟨after, htag, hfound⟩ := Option.bind_eq_some_iff.1 h
  obtain ⟨gap, rfl⟩ := exists_gap_of_tag? htag
  obtain ⟨⟨types, rest⟩, hbracketed, -⟩ := Option.bind_eq_some_iff.1 hfound
  obtain ⟨htypes, rfl⟩ := eq_of_bracketed? hbracketed
  exact ⟨gap, types, rest, htypes, by simp⟩

end Matches

/-! ## Tags -/

section Tags

variable {tag : String} {rest line : List Char}

theorem TagName.edged (name : TagName) : Text.Edged name.text := by
  have hblank : ∀ c ∈ name.text, Text.isBlank c = false := by
    intro c hc
    cases h : Text.isBlank c with
    | false => rfl
    | true =>
        have hword := name.word c hc
        rw [not_isWord_of_isBlank h] at hword
        cases hword
  exact ⟨⟨_, List.head?_eq_some_head name.ne_nil, hblank _ (List.head_mem name.ne_nil)⟩,
    ⟨_, List.getLast?_eq_some_getLast name.ne_nil, hblank _ (List.getLast_mem name.ne_nil)⟩⟩

/-- A name does not begin with a bracket or a blank. -/
theorem TagName.exists_cons (name : TagName) : ∃ c text, name.text = c :: text ∧
    Text.isBlank c = false ∧ c ≠ '[' := by
  obtain ⟨c, text, htext, hblank⟩ := name.edged.exists_cons
  refine ⟨c, text, htext, hblank, ?_⟩
  rintro rfl
  exact absurd (name.word '[' (by simp [htext])) (by decide +kernel)

theorem Gap.exists_cons (gap : Gap) : ∃ c text, gap.text = c :: text ∧
    Text.isWord c = false := by
  obtain ⟨c, text, htext⟩ := List.exists_cons_of_ne_nil gap.ne_nil
  exact ⟨c, text, htext, not_isWord_of_isBlank (gap.blank c (by simp [htext]))⟩

/-- Types in front of a name begin with a bracket. -/
theorem typesFirst?_name (name : TagName) (rest : List Char) :
    typesFirst? (name.text ++ rest) = none := by
  obtain ⟨c, text, htext, -, hbracket⟩ := name.exists_cons
  simp [typesFirst?, bracketed?, htext, hbracket]

theorem nameFirst?_append (name : TagName) (gap : Gap) (types : List ListedName)
    (rest : List Char) :
    nameFirst? (name.text ++ (gap.text ++ ('[' :: printTypes types ++ ']' :: rest))) =
      some (name.text, printTypes types) := by
  obtain ⟨c, blanks, hgap, hword⟩ := gap.exists_cons
  have hname := word?_append name (gap.text ++ ('[' :: printTypes types ++ ']' :: rest))
    (by simp [hgap, hword])
  have hblanks := blanks?_append gap ('[' :: printTypes types ++ ']' :: rest)
    ⟨'[', rfl, by decide⟩
  have htypes := bracketed?_append (bracket_not_mem_printTypes types) rest
  simp only [nameFirst?, hname, hblanks, htypes, Option.bind_eq_bind, Option.bind_some]

theorem typesFirst?_append (types : List ListedName) (gap : Gap) (name : TagName)
    (hrest : ∀ c ∈ rest.head?, Text.isWord c = false) :
    typesFirst? ('[' :: printTypes types ++ ']' :: (gap.text ++ (name.text ++ rest))) =
      some (name.text, printTypes types) := by
  obtain ⟨c, text, htext, hblank, -⟩ := name.exists_cons
  have htypes := bracketed?_append (bracket_not_mem_printTypes types)
    (gap.text ++ (name.text ++ rest))
  have hblanks := blanks?_append gap (name.text ++ rest) ⟨c, by simp [htext], hblank⟩
  have hname := word?_append name rest hrest
  simp only [typesFirst?, htypes, hblanks, hname, Option.bind_eq_bind, Option.bind_some]

/-- What the patterns find behind `@param` is the parameter. -/
theorem parameterTag?_append (gap : Gap) {name types : List Char}
    (hhead : ∃ c ∈ rest.head?, Text.isBlank c = false)
    (hfound : ((typesFirst? rest).orElse fun _ => nameFirst? rest) = some (name, types)) :
    parameterTag? ("@param".toList ++ gap.text ++ rest) =
      some ⟨String.ofList name, splitTypes types⟩ := by
  simp only [parameterTag?, tag?_append "@param" gap rest hhead, hfound, Option.bind_eq_bind,
    Option.bind_some]

theorem returnTag?_append (gap : Gap) (types : List ListedName) (rest : List Char) :
    returnTag? ("@return".toList ++ gap.text ++ ('[' :: printTypes types ++ ']' :: rest)) =
      some (types.map ListedName.type) := by
  have htag := tag?_append "@return" gap ('[' :: printTypes types ++ ']' :: rest)
    ⟨'[', rfl, by decide⟩
  have htypes := bracketed?_append (bracket_not_mem_printTypes types) rest
  simp only [returnTag?, htag, htypes, Option.bind_eq_bind, Option.bind_some,
    splitTypes_printTypes]

theorem parameterTag?_return (line : List Char) :
    parameterTag? ("@return".toList ++ line) = none :=
  rfl

theorem tag?_eq_none (htag : tag.toList.head? = some '@') (hline : line.head? ≠ some '@') :
    tag? tag line = none := by
  refine Option.eq_none_iff_forall_ne_some.2 ?_
  intro rest h
  obtain ⟨gap, rfl⟩ := exists_gap_of_tag? h
  simp [htag] at hline

end Tags

/-! ## Reading lines -/

namespace CommentLine

/-- What is read of a printed line. -/
def meaning : CommentLine → Line
  | text line _ => .text line
  | nameFirst _ _ name _ types _ | typesFirst _ _ types _ name _ _ =>
      .parameter ⟨String.ofList name.text, types.map ListedName.type⟩
  | returns _ _ types _ => .returns (types.map ListedName.type)
  | otherTag _ _ _ _ => .otherTag

@[simp] theorem parameter?_meaning (l : CommentLine) : l.meaning.parameter? = l.parameter? := by
  cases l <;> rfl

@[simp] theorem returnTypes_meaning (l : CommentLine) :
    l.meaning.returnTypes = l.returnTypes := by
  cases l <;> rfl

@[simp] theorem text?_meaning (l : CommentLine) : l.meaning.text? = l.text? := by
  cases l <;> rfl

theorem read_of_parameterTag? {line : List Char} {declared : Parameter}
    (h : parameterTag? (Text.trim line) = some declared) :
    Line.read line = .parameter declared := by
  simp only [Line.read, h]

theorem read_of_returnTag? {line : List Char} {types : List String}
    (h : parameterTag? (Text.trim line) = none) (h' : returnTag? (Text.trim line) = some types) :
    Line.read line = .returns types := by
  simp only [Line.read, h, h']

theorem read_of_none {line : List Char} (h : parameterTag? (Text.trim line) = none)
    (h' : returnTag? (Text.trim line) = none) :
    Line.read line = if (Text.trim line).head? = some '@' then .otherTag else .text line := by
  simp only [Line.read, h, h']

section Lines

variable {line rest : List Char} {indent : Blanks} {gap gap' : Gap} {name : TagName}
  {types : List ListedName}

theorem read_text (free : firstInk line ≠ some '@') : Line.read line = .text line := by
  have hhead : (Text.trim line).head? ≠ some '@' := by
    rwa [Text.head?_trim]
  have hparameter : parameterTag? (Text.trim line) = none := by
    rw [parameterTag?, tag?_eq_none rfl hhead]
    rfl
  have hreturn : returnTag? (Text.trim line) = none := by
    rw [returnTag?, tag?_eq_none rfl hhead]
    rfl
  exact (read_of_none hparameter hreturn).trans (if_neg hhead)

theorem read_nameFirst : Line.read (print (.nameFirst indent gap name gap' types rest)) =
    .parameter ⟨String.ofList name.text, types.map ListedName.type⟩ := by
  have hedged : Text.Edged ("@param".toList ++ gap.text ++ name.text ++ gap'.text ++
      '[' :: printTypes types ++ [']']) :=
    ⟨⟨'@', rfl, by decide⟩, ']', List.getLast?_concat, by decide⟩
  have htrim : Text.trim (print (.nameFirst indent gap name gap' types rest)) =
      "@param".toList ++ gap.text ++ (name.text ++ (gap'.text ++
        ('[' :: printTypes types ++ ']' :: Text.trimEnd rest))) := by
    rw [print, Text.trim_blanks_append indent.blank hedged]
    simp
  obtain ⟨c, text, htext, hblank, -⟩ := name.exists_cons
  rw [← splitTypes_printTypes]
  refine read_of_parameterTag? ?_
  rw [htrim]
  refine parameterTag?_append gap ⟨c, by simp [htext], hblank⟩ ?_
  rw [typesFirst?_name, nameFirst?_append]
  rfl

theorem read_typesFirst (ends : ∀ c ∈ rest.head?, Text.isWord c = false) :
    Line.read (print (.typesFirst indent gap types gap' name rest ends)) =
      .parameter ⟨String.ofList name.text, types.map ListedName.type⟩ := by
  obtain ⟨-, last, hlast, hblank⟩ := name.edged
  have hedged : Text.Edged ("@param".toList ++ gap.text ++ '[' :: printTypes types ++
      ']' :: gap'.text ++ name.text) :=
    ⟨⟨'@', rfl, by decide⟩, last, by
      rw [List.getLast?_append, Option.mem_def.1 hlast]
      rfl, hblank⟩
  have htrim : Text.trim (print (.typesFirst indent gap types gap' name rest ends)) =
      "@param".toList ++ gap.text ++ ('[' :: printTypes types ++
        ']' :: (gap'.text ++ (name.text ++ Text.trimEnd rest))) := by
    rw [print, Text.trim_blanks_append indent.blank hedged]
    simp
  -- what follows the name still does once the blanks at the end are gone
  have hends : ∀ c ∈ (Text.trimEnd rest).head?, Text.isWord c = false := fun c hc =>
    ends c (Text.mem_head?_of_trimEnd hc)
  have hfound := typesFirst?_append types gap' name hends
  rw [← splitTypes_printTypes]
  refine read_of_parameterTag? ?_
  rw [htrim]
  exact parameterTag?_append gap ⟨'[', rfl, by decide⟩ (by rw [hfound]; rfl)

theorem read_returns : Line.read (print (.returns indent gap types rest)) =
    .returns (types.map ListedName.type) := by
  have hedged : Text.Edged ("@return".toList ++ gap.text ++ '[' :: printTypes types ++ [']']) :=
    ⟨⟨'@', rfl, by decide⟩, ']', List.getLast?_concat, by decide⟩
  have htrim : Text.trim (print (.returns indent gap types rest)) = "@return".toList ++
      gap.text ++ ('[' :: printTypes types ++ ']' :: Text.trimEnd rest) := by
    rw [print, Text.trim_blanks_append indent.blank hedged]
    simp
  refine read_of_returnTag? ?_ ?_
  · rw [htrim, List.append_assoc]
    exact parameterTag?_return _
  · rw [htrim]
    exact returnTag?_append gap types _

theorem read_otherTag (tag : firstInk line = some '@')
    (noParameter : ¬ MatchesParameter (Text.trim line))
    (noReturn : ¬ MatchesReturn (Text.trim line)) : Line.read line = .otherTag := by
  have hhead : (Text.trim line).head? = some '@' := by
    rwa [Text.head?_trim]
  have hparameter : parameterTag? (Text.trim line) = none :=
    Option.eq_none_iff_forall_ne_some.2 fun _ h => noParameter (matches_of_parameterTag? h)
  have hreturn : returnTag? (Text.trim line) = none :=
    Option.eq_none_iff_forall_ne_some.2 fun _ h => noReturn (matches_of_returnTag? h)
  exact (read_of_none hparameter hreturn).trans (if_pos hhead)

end Lines

theorem read_print (l : CommentLine) : Line.read l.print = l.meaning := by
  cases l with
  | text line free => exact read_text free
  | nameFirst indent gap name gap' types rest => exact read_nameFirst
  | typesFirst indent gap types gap' name rest ends => exact read_typesFirst ends
  | returns indent gap types rest => exact read_returns
  | otherTag line tag noParameter noReturn => exact read_otherTag tag noParameter noReturn

end CommentLine

/-! ## Reading comments -/

namespace DocComment

/-- An empty line at the end says nothing. -/
theorem ofLines_concat_nil (rows : List (List Char)) :
    ofLines ((rows ++ [[]]).map Line.read) = ofLines (rows.map Line.read) := by
  have htext : (Line.read []).text? = some [] := rfl
  have hreturns : (Line.read []).returnTypes = [] := rfl
  have hparameter : (Line.read []).parameter? = none := rfl
  simp [ofLines, htext, hreturns, hparameter, Text.trim_joinWith_concat_nil]

/-- The comment of some lines has their parameters and return types in order, and their free text,
trimmed, as its description. -/
theorem parse_print {lines : List CommentLine} (h : ∀ l ∈ lines, Text.Unbroken l.print) :
    parse (some (String.ofList (Text.joinWith ['\n'] (lines.map CommentLine.print)))) =
      { description :=
          let text := Text.trim (Text.joinWith ['\n'] (lines.filterMap CommentLine.text?))
          if text = [] then none else some (String.ofList text)
        returnTypes := lines.flatMap CommentLine.returnTypes
        parameters := lines.filterMap CommentLine.parameter? } := by
  have hrows : ∀ row ∈ lines.map CommentLine.print, Text.Unbroken row := by
    simpa using h
  have hread : parse (some (String.ofList
      (Text.joinWith ['\n'] (lines.map CommentLine.print)))) =
        ofLines ((lines.map CommentLine.print).map Line.read) := by
    rw [parse, String.toList_ofList]
    rcases Text.lines_joinWith hrows with heq | heq
    · rw [heq]
    · rw [← ofLines_concat_nil, ← heq]
  rw [hread, List.map_map]
  simp [ofLines, List.filterMap_map, List.flatMap_map, Function.comp_def, CommentLine.read_print]

/-- A comment with a line of each sort. -/
def sampleLines : List CommentLine :=
  [ .text "Adds.".toList (by decide),
    .nameFirst .none .one ⟨['a'], List.all_eq_true.1 (by decide +kernel), List.cons_ne_nil _ _⟩ .one
      [ ⟨.none, ⟨['A'], ⟨⟨'A', rfl, rfl⟩, 'A', rfl, rfl⟩, List.all_eq_true.1 rfl⟩, .none⟩,
        ⟨Gap.one.toBlanks, ⟨"Boolean".toList, ⟨⟨'B', rfl, rfl⟩, 'n', rfl, rfl⟩,
          List.all_eq_true.1 rfl⟩, .none⟩ ]
      " first".toList,
    .typesFirst Gap.one.toBlanks .one
      [⟨.none, ⟨['B'], ⟨⟨'B', rfl, rfl⟩, 'B', rfl, rfl⟩, List.all_eq_true.1 rfl⟩, .none⟩] .one
      ⟨['b'], List.all_eq_true.1 (by decide +kernel), List.cons_ne_nil _ _⟩ [] (by simp),
    .returns .none .one
      [⟨.none, ⟨['C'], ⟨⟨'C', rfl, rfl⟩, 'C', rfl, rfl⟩, List.all_eq_true.1 rfl⟩, .none⟩] [],
    .otherTag "@note x".toList (by decide) (fun h => absurd h.begins (by decide))
      (fun h => absurd h.begins (by decide)) ]

theorem parse_sampleLines :
    (∀ l ∈ sampleLines, Text.Unbroken l.print) ∧
      parse (some "Adds.\n@param a [A, Boolean] first\n @param [B] b\n@return [C]\n@note x") =
        ⟨some "Adds.", ["C"], [⟨"a", ["A", "bool"]⟩, ⟨"b", ["B"]⟩]⟩ := by
  have hlines : ∀ l ∈ sampleLines, Text.Unbroken l.print := by decide
  exact ⟨hlines, (parse_print hlines).trans (by decide)⟩

end DocComment
end Declaration
end RubyIndex
