/-!
# Blank characters, trimming and lines

Text is handled as `List Char`; the functions on `String` at the end of each section are thin
wrappers.  This file defines

* `isBlank`, the characters with the Unicode property White_Space;
* `trimStart`, `trimEnd` and `trim`;
* `lines`, the lines of a text without their line endings.
-/

namespace RubyIndex
namespace Text

/-! ## White space -/

/-- The characters with the Unicode property White_Space. -/
def isBlank (c : Char) : Bool :=
  let n := c.toNat
  (9 ≤ n && n ≤ 13) || n == 0x20 || n == 0x85 || n == 0xA0 || n == 0x1680 ||
    (0x2000 ≤ n && n ≤ 0x200A) || n == 0x2028 || n == 0x2029 || n == 0x202F ||
    n == 0x205F || n == 0x3000

def trimStart (s : List Char) : List Char :=
  s.dropWhile isBlank

def trimEnd (s : List Char) : List Char :=
  (s.reverse.dropWhile isBlank).reverse

/-- Drops the blank characters on both sides. -/
def trim (s : List Char) : List Char :=
  trimEnd (trimStart s)

/-! ## Lines -/

/-- Drops one carriage return at the end. -/
def dropReturn (line : List Char) : List Char :=
  match line.reverse with
  | '\r' :: rest => rest.reverse
  | _ => line

/-- The lines of a text whose current line already holds `current`, last character first. -/
def linesFrom (current : List Char) : List Char → List (List Char)
  | [] => if current.isEmpty then [] else [current.reverse]
  | c :: rest =>
      if c = '\n' then dropReturn current.reverse :: linesFrom [] rest
      else linesFrom (c :: current) rest

/-- A line ends at a newline, together with one carriage return before it; after the last newline
there is one more line unless it is empty. -/
def lines (s : List Char) : List (List Char) :=
  linesFrom [] s

/-- The texts of a list with a separator between neighbours. -/
def joinWith (separator : List Char) : List (List Char) → List Char
  | [] => []
  | [piece] => piece
  | piece :: rest => piece ++ separator ++ joinWith separator rest

end Text
end RubyIndex
