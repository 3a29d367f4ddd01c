import RubyIndex.Declaration.DocComment
import RubyIndex.Proofs.Text.Split
import RubyIndex.Proofs.Text.Trim

/-!
# Lists of types in doc comments

The grammar of the types in doc comments, and when a list of them is cut into the types again.  The
arrow of a hash type ends in a character that closes a bracket, so behind it the depth is one less
than the brackets make it.

* `DocType`, `DocTypes`, types and lists of one or more, with `print`;
* `DocType.arrows`, `DocType.exposed`, what the arrows in a type do to the depth;
* `level_print`, `uncut_print_iff`, the depth of a printed type is what they say;
* `splitTypes_print_iff`, when the types of a list are recovered.
-/

namespace RubyIndex
namespace Declaration

/-! ## Types -/

/-- Characters that have no meaning in a list of types. -/
def isPlain (c : Char) : Bool :=
  !(List.contains [ ',', '<', '>', '(', ')', '[', ']', '\x7b', '\x7d' ] c)

/-- A name of a type, with no blank at its ends. -/
structure TypeName where
  text : List Char
  edged : Text.Edged text
  plain : ∀ c ∈ text, isPlain c = true

mutual

inductive DocType
  | name (n : TypeName)
  | generic (n : TypeName) (arguments : DocTypes)
  | hash (n : TypeName) (key value : DocType)
  | tuple (parts : DocTypes)

/-- One or more types. -/
inductive DocTypes
  | one (t : DocType)
  | more (t : DocType) (rest : DocTypes)

end

def DocTypes.toList : DocTypes → List DocType
  | one t => [t]
  | more t rest => t :: rest.toList

theorem DocTypes.toList_ne_nil (ts : DocTypes) : ts.toList ≠ [] := by
  cases ts <;> simp [toList]

def DocTypes.last : DocTypes → DocType
  | one t => t
  | more _ rest => rest.last

mutual

def DocType.print : DocType → List Char
  | .name n => n.text
  | .generic n arguments => n.text ++ '<' :: arguments.print ++ ['>']
  | .hash n key value =>
      n.text ++ '\x7b' :: key.print ++ [ ' ', '=', '>', ' ' ] ++ value.print ++ ['\x7d']
  | .tuple parts => '(' :: parts.print ++ [')']

def DocTypes.print : DocTypes → List Char
  | .one t => t.print
  | .more t rest => t.print ++ ',' :: ' ' :: rest.print

end

/-- A type as signatures show it. -/
def DocType.signature (t : DocType) : String :=
  String.ofList (signatureType t.print)

/-! ## Arrows -/

mutual

/-- The number of hash types in a type. -/
def DocType.arrows : DocType → Nat
  | .name _ => 0
  | .generic _ arguments => arguments.arrows
  | .hash _ key value => key.arrows + value.arrows + 1
  | .tuple parts => parts.arrows

def DocTypes.arrows : DocTypes → Nat
  | .one t => t.arrows
  | .more t rest => t.arrows + rest.arrows

end

mutual

/-- Whether some comma in a type that begins at a depth stands at depth zero, when every arrow ends
one level up. -/
def DocType.exposed (depth : Int) : DocType → Bool
  | .name _ => false
  | .generic _ arguments => arguments.exposed (depth + 1)
  | .hash _ key value => key.exposed (depth + 1) || value.exposed (depth - key.arrows)
  | .tuple parts => parts.exposed (depth + 1)

def DocTypes.exposed (depth : Int) : DocTypes → Bool
  | .one t => t.exposed depth
  | .more t rest => t.exposed depth || depth == t.arrows || rest.exposed (depth - t.arrows)

end

mutual

/-- Without arrows the commas in a type stand below the brackets around them. -/
theorem DocType.exposed_of_arrows {depth : Int} (hdepth : 0 ≤ depth) :
    ∀ t : DocType, t.arrows = 0 → t.exposed depth = false
  | .name _, _ => rfl
  | .generic _ arguments, h => DocTypes.exposed_of_arrows (by omega) arguments h
  | .hash _ _ _, h => absurd h (Nat.succ_ne_zero _)
  | .tuple parts, h => DocTypes.exposed_of_arrows (by omega) parts h

theorem DocTypes.exposed_of_arrows {depth : Int} (hdepth : 0 < depth) :
    ∀ ts : DocTypes, ts.arrows = 0 → ts.exposed depth = false
  | .one t, h => DocType.exposed_of_arrows (by omega) t h
  | .more t rest, h => by
      obtain ⟨ht, hrest⟩ := Nat.add_eq_zero_iff.1 h
      have hfirst := DocType.exposed_of_arrows (Int.le_of_lt hdepth) t ht
      have hlater := DocTypes.exposed_of_arrows hdepth rest hrest
      have hcomma : ¬ depth = 0 := by omega
      simp [DocTypes.exposed, hfirst, ht, hlater, hcomma]

end

/-! ## Depth -/

@[simp] theorem weight_angles : typeBrackets.weight '<' = 1 ∧ typeBrackets.weight '>' = -1 := by
  decide

@[simp] theorem weight_parentheses :
    typeBrackets.weight '(' = 1 ∧ typeBrackets.weight ')' = -1 := by
  decide

@[simp] theorem weight_braces :
    typeBrackets.weight '\x7b' = 1 ∧ typeBrackets.weight '\x7d' = -1 := by
  decide

@[simp] theorem weight_others : typeBrackets.weight ',' = 0 ∧ typeBrackets.weight ' ' = 0 ∧
    typeBrackets.weight '=' = 0 := by
  decide

section Names

variable {c : Char} {depth : Int}

theorem weight_of_isPlain (h : isPlain c = true) : typeBrackets.weight c = 0 := by
  simp only [isPlain, List.contains_eq_mem, List.mem_cons, List.not_mem_nil, or_false,
    Bool.not_eq_true', decide_eq_false_iff_not, not_or] at h
  simp [Text.Brackets.weight, typeBrackets, h]

@[simp] theorem TypeName.level_text (n : TypeName) : typeBrackets.level n.text = 0 :=
  Text.Brackets.level_eq_zero fun c hc => weight_of_isPlain (n.plain c hc)

@[simp] theorem TypeName.uncut_text (n : TypeName) : Text.Uncut typeBrackets ',' depth n.text :=
  Text.uncut_of_not_mem fun hc => absurd (n.plain _ hc) (by decide)

end Names

mutual

/-- The brackets of a type are closed again, and once more by each arrow. -/
theorem DocType.level_print : ∀ t : DocType, typeBrackets.level t.print = -t.arrows
  | .name n => by simp [DocType.print, DocType.arrows]
  | .generic n arguments => by
      have harguments := DocTypes.level_print arguments
      simp only [DocType.print, DocType.arrows, Text.Brackets.level_append,
        Text.Brackets.level_cons, Text.Brackets.level_nil, TypeName.level_text, weight_angles,
        harguments]
      omega
  | .hash n key value => by
      have hkey := DocType.level_print key
      have hvalue := DocType.level_print value
      simp only [DocType.print, DocType.arrows, Text.Brackets.level_append,
        Text.Brackets.level_cons, Text.Brackets.level_nil, TypeName.level_text, weight_angles,
        weight_braces, weight_others, hkey, hvalue]
      omega
  | .tuple parts => by
      have hparts := DocTypes.level_print parts
      simp only [DocType.print, DocType.arrows, Text.Brackets.level_append,
        Text.Brackets.level_cons, Text.Brackets.level_nil, weight_parentheses, hparts]
      omega

theorem DocTypes.level_print : ∀ ts : DocTypes, typeBrackets.level ts.print = -ts.arrows
  | .one t => t.level_print
  | .more t rest => by
      have ht := t.level_print
      have hrest := DocTypes.level_print rest
      simp only [DocTypes.print, DocTypes.arrows, Text.Brackets.level_append,
        Text.Brackets.level_cons, weight_others, ht, hrest]
      omega

end

mutual

/-- The commas that a type is cut at are those that are exposed. -/
theorem DocType.uncut_print_iff : ∀ (t : DocType) (depth : Int),
    Text.Uncut typeBrackets ',' depth t.print ↔ t.exposed depth = false
  | .name n, depth => by simp [DocType.print, DocType.exposed]
  | .generic n arguments, depth => by
      have harguments := DocTypes.uncut_print_iff arguments (depth + 1)
      simp [DocType.print, DocType.exposed, harguments]
  | .hash n key value, depth => by
      have hkey := DocType.uncut_print_iff key (depth + 1)
      have hvalue := DocType.uncut_print_iff value (depth - key.arrows)
      -- the arrow has closed the brace, and the arrows of the key have closed one each
      have hback : depth + 1 + -(key.arrows : Int) + -1 = depth - key.arrows := by omega
      simp [DocType.print, DocType.exposed, key.level_print, hback, hkey, hvalue]
  | .tuple parts, depth => by
      have hparts := DocTypes.uncut_print_iff parts (depth + 1)
      simp [DocType.print, DocType.exposed, hparts]

theorem DocTypes.uncut_print_iff : ∀ (ts : DocTypes) (depth : Int),
    Text.Uncut typeBrackets ',' depth ts.print ↔ ts.exposed depth = false
  | .one t, depth => t.uncut_print_iff depth
  | .more t rest, depth => by
      have ht := t.uncut_print_iff depth
      have hrest := DocTypes.uncut_print_iff rest (depth - t.arrows)
      have hback : depth + -(t.arrows : Int) = depth - t.arrows := by omega
      have hcomma : depth - t.arrows = 0 ↔ depth = t.arrows := by omega
      simp [DocTypes.print, DocTypes.exposed, t.level_print, hback, hcomma, ht, hrest, and_assoc]

end

/-! ## Ends -/

theorem DocType.edged_print : ∀ t : DocType, Text.Edged t.print
  | .name n => n.edged
  | .generic n arguments => by
      rw [DocType.print, List.append_assoc]
      exact n.edged.append (Text.edged_between (by decide) (by decide) _)
  | .hash n key value => by
      have hbraces : Text.Edged
          ('\x7b' :: (key.print ++ [ ' ', '=', '>', ' ' ] ++ value.print) ++ ['\x7d']) :=
        Text.edged_between (by decide) (by decide) _
      simpa [DocType.print] using n.edged.append hbraces
  | .tuple parts => by
      rw [DocType.print]
      exact Text.edged_between (by decide) (by decide) _

theorem DocType.trim_print (t : DocType) : Text.trim t.print = t.print :=
  Text.trim_edged t.edged_print

/-- A type begins with a character that belongs to it. -/
theorem TypeName.exists_cons (n : TypeName) :
    ∃ c rest, n.text = c :: rest ∧ c ≠ ',' ∧ Text.isBlank c = false := by
  obtain ⟨c, rest, htext, hblank⟩ := n.edged.exists_cons
  refine ⟨c, rest, htext, ?_, hblank⟩
  rintro rfl
  exact absurd (n.plain ',' (by simp [htext])) (by decide)

theorem DocType.exists_cons (t : DocType) :
    ∃ c rest, t.print = c :: rest ∧ c ≠ ',' ∧ Text.isBlank c = false := by
  cases t with
  | name n => exact n.exists_cons
  | generic n _ | hash n _ _ =>
      obtain ⟨c, rest, htext, hc⟩ := n.exists_cons
      exact ⟨c, _, by rw [DocType.print, htext]; rfl, hc⟩
  | tuple _ => exact ⟨'(', _, rfl, by decide, by decide⟩

/-! ## Entries of a list -/

/-- The types that parts of a list stand for; blank parts stand for none. -/
def entriesOf (parts : List (List Char)) : List String :=
  ((parts.map fun part => signatureType (Text.trim part)).filter fun part => !part.isEmpty).map
    String.ofList

theorem splitTypes_eq (text : List Char) :
    splitTypes text = entriesOf (Text.splitTop typeBrackets ',' text) :=
  rfl

section Entries

variable {part text : List Char} {parts : List (List Char)}

theorem signatureType_ne_nil (h : text ≠ []) : signatureType text ≠ [] := by
  unfold signatureType
  split
  · decide
  · simpa using h

/-- Commas are commas in a signature. -/
theorem count_signatureType (text : List Char) :
    (signatureType text).count ',' = text.count ',' := by
  unfold signatureType
  split
  · rename_i h
    rw [h]
    decide
  · simp only [List.count, List.countP_map]
    congr 1
    funext c
    simp only [Function.comp_apply]
    split
    · rename_i h
      rw [h]
      decide
    · split
      · rename_i h
        rw [h]
        decide
      · rfl

theorem entriesOf_cons (h : Text.trim part ≠ []) :
    entriesOf (part :: parts) =
      String.ofList (signatureType (Text.trim part)) :: entriesOf parts := by
  have hne := signatureType_ne_nil h
  simp [entriesOf, hne]

end Entries

section Lists

variable {t : DocType} {text : List Char}

/-- A list that begins with a blank has the same types without it. -/
theorem splitTypes_blank (text : List Char) : splitTypes (' ' :: text) = splitTypes text := by
  obtain ⟨first, others, hsplit⟩ := Text.exists_splitTopFrom typeBrackets ',' 0 text
  have hblank : Text.splitTop typeBrackets ',' (' ' :: text) = (' ' :: first) :: others := by
    have hnext : Text.splitTop typeBrackets ',' (' ' :: text) =
        Text.splitTopFrom typeBrackets ',' 0 [' '] text := rfl
    rw [hnext, hsplit]
    rfl
  have htext : Text.splitTop typeBrackets ',' text = first :: others := hsplit []
  have htrim : Text.trim (' ' :: first) = Text.trim first :=
    Text.trim_cons rfl first
  simp only [splitTypes_eq, hblank, htext, entriesOf, List.map_cons, htrim]

theorem entriesOf_print (t : DocType) (parts : List (List Char)) :
    entriesOf (t.print :: parts) = t.signature :: entriesOf parts := by
  obtain ⟨c, rest, hprint, -, -⟩ := t.exists_cons
  have hne : Text.trim t.print ≠ [] := by
    rw [t.trim_print, hprint]
    exact List.cons_ne_nil c rest
  rw [entriesOf_cons hne, t.trim_print]
  rfl

/-- A type of its own. -/
theorem splitTypes_print (h : t.exposed 0 = false) : splitTypes t.print = [t.signature] := by
  rw [splitTypes_eq, Text.splitTop_of_uncut ((t.uncut_print_iff 0).2 h), entriesOf_print]
  rfl

/-- A type that is closed again, in front of others. -/
theorem splitTypes_print_comma (h : t.exposed 0 = false) (harrows : t.arrows = 0)
    (text : List Char) :
    splitTypes (t.print ++ ',' :: ' ' :: text) = t.signature :: splitTypes text := by
  have hlevel : typeBrackets.level t.print = 0 := by simp [t.level_print, harrows]
  rw [splitTypes_eq, Text.splitTop_append ((t.uncut_print_iff 0).2 h) hlevel, entriesOf_print,
    ← splitTypes_eq, splitTypes_blank]

/-- A first entry that is right has as many commas as the part that it was made from. -/
theorem count_of_splitTypes_cons {first : List Char} {others : List (List Char)}
    {entries : List String} (hsplit : Text.splitTop typeBrackets ',' text = first :: others)
    (hne : Text.trim first ≠ []) (h : splitTypes text = t.signature :: entries) :
    first.count ',' = t.print.count ',' := by
  rw [splitTypes_eq, hsplit, entriesOf_cons hne] at h
  have hentry : signatureType (Text.trim first) = signatureType t.print := by
    simpa [DocType.signature] using congrArg String.toList (List.cons.inj h).1
  have hcount := congrArg (List.count ',') hentry
  rwa [count_signatureType, count_signatureType, Text.count_trim (by decide)] at hcount

/-- A type with an exposed comma is cut there. -/
theorem splitTypes_ne_of_exposed (h : t.exposed 0 = true) (text : List Char)
    (entries : List String) : splitTypes (t.print ++ text) ≠ t.signature :: entries := by
  intro heq
  rcases Text.uncut_or_exists_cut typeBrackets ',' 0 t.print with huncut | hcut
  · rw [(t.uncut_print_iff 0).1 huncut] at h
    cases h
  · obtain ⟨before, after, hprint, huncut, hlevel⟩ := hcut
    rw [Int.zero_add] at hlevel
    have hsplit : Text.splitTop typeBrackets ',' (t.print ++ text) =
        before :: Text.splitTop typeBrackets ',' (after ++ text) := by
      rw [hprint, List.append_assoc, List.cons_append]
      exact Text.splitTop_append huncut hlevel _
    have hne : Text.trim before ≠ [] := by
      obtain ⟨c, rest, hcons, hcomma, hblank⟩ := t.exists_cons
      rw [hprint] at hcons
      cases before with
      | nil => exact absurd (List.cons.inj hcons).1.symm hcomma
      | cons d before =>
          obtain ⟨rfl, -⟩ := List.cons.inj hcons
          exact Text.trim_ne_nil List.mem_cons_self hblank
    have hcount := count_of_splitTypes_cons hsplit hne heq
    rw [hprint, List.count_append, List.count_cons_self] at hcount
    omega

/-- A type that is closed too often goes on behind the comma. -/
theorem splitTypes_ne_of_arrows (h : t.exposed 0 = false) (harrows : t.arrows ≠ 0)
    (text : List Char) (entries : List String) :
    splitTypes (t.print ++ ',' :: text) ≠ t.signature :: entries := by
  intro heq
  have huncut : Text.Uncut typeBrackets ',' 0 (t.print ++ [',']) := by
    simp [(t.uncut_print_iff 0).2 h, t.level_print, harrows]
  obtain ⟨first, others, hsplit⟩ := Text.exists_splitTop_append huncut text
  rw [List.append_assoc, List.singleton_append] at hsplit
  have hne : Text.trim (t.print ++ [','] ++ first) ≠ [] :=
    Text.trim_ne_nil (c := ',') (by simp) (by decide)
  have hcount := count_of_splitTypes_cons hsplit hne heq
  simp only [List.count_append, List.count_singleton_self] at hcount
  omega

end Lists

/-- The types of a list are recovered exactly when only the last one has arrows, and these do not
expose a comma in it. -/
theorem splitTypes_print_iff : ∀ ts : DocTypes,
    splitTypes ts.print = ts.toList.map DocType.signature ↔
      (∀ t ∈ ts.toList.dropLast, t.arrows = 0) ∧ ts.last.exposed 0 = false
  | .one t => by
      have hone : (DocTypes.one t).print = t.print := rfl
      have hinit : ∀ u ∈ (DocTypes.one t).toList.dropLast, u.arrows = 0 := by
        simp [DocTypes.toList]
      rw [hone, and_iff_right hinit]
      cases hexposed : t.exposed 0 with
      | true =>
          refine iff_of_false ?_ (by simp [DocTypes.last, hexposed])
          rw [← List.append_nil t.print]
          exact splitTypes_ne_of_exposed hexposed [] []
      | false => exact iff_of_true (splitTypes_print hexposed) hexposed
  | .more t rest => by
      have hinit : (DocTypes.more t rest).toList.dropLast = t :: rest.toList.dropLast :=
        List.dropLast_cons_of_ne_nil rest.toList_ne_nil
      rw [hinit, List.forall_mem_cons, and_assoc, DocTypes.print]
      by_cases harrows : t.arrows = 0
      · have hexposed := t.exposed_of_arrows (Int.le_refl 0) harrows
        have hrest := splitTypes_print_iff rest
        rw [splitTypes_print_comma hexposed harrows]
        simp [DocTypes.toList, DocTypes.last, harrows, hrest]
      · refine iff_of_false ?_ (fun h => harrows h.1)
        cases hexposed : t.exposed 0 with
        | true => exact splitTypes_ne_of_exposed hexposed _ _
        | false => exact splitTypes_ne_of_arrows hexposed harrows _ _

/-- The list `Hash{A => B}, C` is not cut at all. -/
theorem not_splitTypes_print :
    ¬ ∀ ts : DocTypes, splitTypes ts.print = ts.toList.map DocType.signature := by
  intro h
  have hsplit := h (.more
    (.hash ⟨"Hash".toList, ⟨⟨'H', rfl, rfl⟩, 'h', rfl, rfl⟩, List.all_eq_true.1 rfl⟩
      (.name ⟨"A".toList, ⟨⟨'A', rfl, rfl⟩, 'A', rfl, rfl⟩, List.all_eq_true.1 rfl⟩)
      (.name ⟨"B".toList, ⟨⟨'B', rfl, rfl⟩, 'B', rfl, rfl⟩, List.all_eq_true.1 rfl⟩))
    (.one (.name ⟨"C".toList, ⟨⟨'C', rfl, rfl⟩, 'C', rfl, rfl⟩, List.all_eq_true.1 rfl⟩)))
  revert hsplit
  decide

end Declaration
end RubyIndex
