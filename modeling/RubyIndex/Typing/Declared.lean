import RubyIndex.Name
import RubyIndex.Text.Blank
import RubyIndex.Text.Split

/-!
# Declared types

A declared type is reduced to the names of the types that methods can be looked up on.  A union
gives the types of its parts, an optional type those of the type and `NilClass`; generic arguments
are dropped, and `self`, `instance` and `class` depend on the receiver.

* `wordTypes?`, the types that are written as one word;
* `literalType?`, the types told by the first character;
* `normalize`, the types of a declared type for a receiver.
-/

namespace RubyIndex
namespace Typing

/-! ## Words -/

/-- The types a declared word stands for, if it is one of the fixed words. -/
def wordTypes? (word receiver : String) : Option (List String) :=
  match word with
  | "untyped" | "void" | "top" | "bot" | "" => some []
  | "bool" | "boolish" => some ["TrueClass", "FalseClass"]
  | "nil" => some ["NilClass"]
  | "true" => some ["TrueClass"]
  | "false" => some ["FalseClass"]
  | "self" => some [receiver]
  | "instance" => some [(Name.metaclassTarget? receiver).getD receiver]
  | "class" =>
      some [if (Name.metaclassTarget? receiver).isSome then "Class" else Name.metaclass receiver]
  | _ => none

/-- The type told by the first character: procs, tuples, records and literals. -/
def literalType? : List Char → Option String
  | '^' :: _ => some "Proc"
  | '[' :: _ => some "Array"
  | '\x7b' :: _ => some "Hash"
  | '"' :: _ => some "String"
  | '\x27' :: _ => some "String"
  | ':' :: ':' :: _ => none
  | ':' :: _ => some "Symbol"
  | c :: _ => if c.isDigit then some "Integer" else none
  | [] => none

/-! ## Names -/

/-- A path without a leading `::`. -/
def unrooted (path : List Char) : List Char :=
  (List.isPrefixOf? [ ':', ':' ] path).getD path

/-- The type `singleton(path)` or a path with generic arguments. -/
def nominalTypes (part : List Char) : List String :=
  match ("singleton(".toList.isPrefixOf? part).bind (List.isSuffixOf? [ ')' ]) with
  | some target => [Name.metaclass (String.ofList (unrooted (Text.trim target)))]
  | none =>
      let name := Text.trim (Text.cutAt (· == '[') (unrooted part)).1
      if name.isEmpty then [] else [String.ofList name]

/-- The types of a part that is neither parenthesised nor optional. -/
def simpleTypes (part : List Char) (receiver : String) : List String :=
  match wordTypes? (String.ofList part) receiver with
  | some types => types
  | none =>
      match literalType? part with
      | some type => [type]
      | none => nominalTypes part

/-! ## Unions, optional types and parentheses -/

/-- The brackets that keep `|` from ending a part. -/
def unionBrackets : Text.Brackets :=
  ⟨[ '[', '(', '\x7b' ], [ ']', ')', '\x7d' ]⟩

/-- The trimmed parts of a union. -/
def unionParts (type : List Char) : List (List Char) :=
  (Text.splitTop unionBrackets '|' type).map Text.trim

/-- The text between an opening parenthesis at the start and a closing one at the end. -/
def parenthesised? (part : List Char) : Option (List Char) :=
  (List.isPrefixOf? [ '(' ] part).bind (List.isSuffixOf? [ ')' ])

theorem length_of_isPrefixOf? {p s r : List Char} (h : p.isPrefixOf? s = some r) :
    s.length = p.length + r.length := by
  induction p generalizing s with
  | nil =>
      cases h
      simp
  | cons c p ih =>
      cases s with
      | nil => cases h
      | cons d s =>
          have hstep : (c :: p).isPrefixOf? (d :: s) =
              if c == d then p.isPrefixOf? s else none := rfl
          rw [hstep] at h
          split at h
          · simp only [List.length_cons, ih h]
            omega
          · simp at h

theorem length_of_isSuffixOf? {p s r : List Char} (h : p.isSuffixOf? s = some r) :
    s.length = p.length + r.length := by
  obtain ⟨r', hr', rfl⟩ := Option.map_eq_some_iff.1 h
  simpa using length_of_isPrefixOf? hr'

theorem length_parenthesised? {part inner : List Char} (h : parenthesised? part = some inner) :
    inner.length < part.length := by
  obtain ⟨rest, hrest, hinner⟩ := Option.bind_eq_some_iff.1 h
  have := length_of_isPrefixOf? hrest
  have := length_of_isSuffixOf? hinner
  simp at *
  omega

theorem length_dropWhile_le (p : Char → Bool) (s : List Char) :
    (s.dropWhile p).length ≤ s.length :=
  (List.dropWhile_suffix p).length_le

theorem length_trim_le (s : List Char) : (Text.trim s).length ≤ s.length := by
  have h1 : (Text.trimStart s).length ≤ s.length := length_dropWhile_le _ _
  have h2 := length_dropWhile_le Text.isBlank (Text.trimStart s).reverse
  simp only [Text.trim, Text.trimEnd, List.length_reverse] at h2 ⊢
  omega

theorem length_splitTopFrom_le {b : Text.Brackets} {sep : Char} {depth : Int}
    {piece s part : List Char} (h : part ∈ Text.splitTopFrom b sep depth piece s) :
    part.length ≤ piece.length + s.length := by
  induction s generalizing depth piece with
  | nil =>
      simp only [Text.splitTopFrom, List.mem_singleton] at h
      simp [h]
  | cons c s ih =>
      simp only [Text.splitTopFrom] at h
      split at h
      · rcases List.mem_cons.1 h with rfl | h
        · simp
        · have := ih h
          simp at this ⊢
          omega
      · have := ih h
        simp at this ⊢
        omega

theorem length_unionParts_le {type part : List Char} (h : part ∈ unionParts type) :
    part.length ≤ type.length := by
  obtain ⟨raw, hraw, rfl⟩ := List.mem_map.1 h
  have := length_splitTopFrom_le hraw
  have := length_trim_le raw
  simp at *
  omega

mutual

/-- The types of a union, part by part. -/
def unionTypes (type : List Char) (receiver : String) : List String :=
  (unionParts type).attach.flatMap fun part => partTypes part.1 receiver
termination_by (type.length, 1)
decreasing_by
  have := length_unionParts_le part.2
  simp [Prod.lex_def]
  omega

/-- The types of one part of a union. -/
def partTypes (part : List Char) (receiver : String) : List String :=
  match _hp : parenthesised? part with
  | some inner => unionTypes inner receiver
  | none =>
      match _ho : List.isSuffixOf? [ '?' ] part with
      | some optional => partTypes (Text.trim optional) receiver ++ ["NilClass"]
      | none => simpleTypes part receiver
termination_by (part.length, 0)
decreasing_by
  · have := length_parenthesised? _hp
    simp [Prod.lex_def]
    omega
  · have := length_of_isSuffixOf? _ho
    have := length_trim_le optional
    simp [Prod.lex_def] at *
    omega

end

/-- The names of the types that a declared type stands for, with `receiver` for `self`. -/
def normalize (declared receiver : String) : List String :=
  unionTypes declared.toList receiver

end Typing
end RubyIndex
