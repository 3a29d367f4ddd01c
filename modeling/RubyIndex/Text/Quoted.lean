import RubyIndex.Text.Extend
import RubyIndex.Text.Printable

/-!
# Quoted texts

A text between double quotes, with a backslash before quotes and backslashes.  Line ends, tabs and
the null character have a letter of their own; other characters that do not show, or that belong to
the one before them, are written by their code.
-/

namespace RubyIndex
namespace Text

/-- A character by its code. -/
def escapeCode (c : Char) : List Char :=
  "\\u\x7b".toList ++ Nat.toDigits 16 c.toNat ++ [ '\x7d' ]

/-- A character of a quoted text. -/
def escape (c : Char) : List Char :=
  match c with
  | '"' => [ '\\', '"' ]
  | '\\' => [ '\\', '\\' ]
  | '\n' => [ '\\', 'n' ]
  | '\r' => [ '\\', 'r' ]
  | '\t' => [ '\\', 't' ]
  | '\x00' => [ '\\', '0' ]
  | c => if isPrintable c && !isExtending c then [c] else escapeCode c

/-- A text between quotes. -/
def quote (s : String) : String :=
  String.ofList ('"' :: s.toList.flatMap escape ++ [ '"' ])

end Text
end RubyIndex
