/-!
# Cutting texts

Ways to take a text apart that the name and type formats share:

* `cutAt` cuts before the first character of some kind;
* `splitTop` cuts at a separator that stands outside all brackets;
* `splitLastScope` and `splitScopes` cut at the scope separator `::`.
-/

namespace RubyIndex
namespace Text

/-- The part before the first character that satisfies `stop`, and the rest from there on. -/
def cutAt (stop : Char → Bool) (text : List Char) : List Char × List Char :=
  text.span (fun c => !stop c)

/-! ## Separators outside brackets -/

/-- The characters that open and close a bracketed part. -/
structure Brackets where
  opening : List Char
  closing : List Char

/-- How a character changes the nesting depth. -/
def Brackets.weight (b : Brackets) (c : Char) : Int :=
  if c ∈ b.opening then 1 else if c ∈ b.closing then -1 else 0

/-- `splitTop` at nesting depth `depth`, with `piece` read so far, last character first. -/
def splitTopFrom (b : Brackets) (separator : Char) (depth : Int) (piece : List Char) :
    List Char → List (List Char)
  | [] => [piece.reverse]
  | c :: rest =>
      if c = separator ∧ depth = 0 then piece.reverse :: splitTopFrom b separator 0 [] rest
      else splitTopFrom b separator (depth + b.weight c) (c :: piece) rest

/-- The parts between the separators that stand where as many brackets were closed as opened. -/
def splitTop (b : Brackets) (separator : Char) (text : List Char) : List (List Char) :=
  splitTopFrom b separator 0 [] text

/-! ## The scope separator -/

/-- The parts before and after the last `::`. -/
def splitLastScope : List Char → Option (List Char × List Char)
  | [] => none
  | c :: rest =>
      match splitLastScope rest with
      | some (before, after) => some (c :: before, after)
      | none =>
          match c, rest with
          | ':', ':' :: after => some ([], after)
          | _, _ => none

/-- `splitScopes` with `piece` read so far, last character first. -/
def splitScopesFrom (piece : List Char) : List Char → List (List Char)
  | ':' :: ':' :: rest => piece.reverse :: splitScopesFrom [] rest
  | c :: rest => splitScopesFrom (c :: piece) rest
  | [] => [piece.reverse]

/-- The parts between the occurrences of `::`, read from the left. -/
def splitScopes (text : List Char) : List (List Char) :=
  splitScopesFrom [] text

end Text
end RubyIndex
