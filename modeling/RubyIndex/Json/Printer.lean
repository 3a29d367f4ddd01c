import RubyIndex.Json.Basic

/-!
# JSON text

`Json.render` writes a value without blanks.  In strings the quote, the backslash and the control
characters are escaped; all other characters stand for themselves.  For a garbled value stands a
string with half of a surrogate pair.
-/

namespace RubyIndex
namespace Json

/-- A hexadecimal digit. -/
def hexDigit (n : Nat) : Char :=
  if n < 10 then Char.ofNat (48 + n) else Char.ofNat (87 + n)

def escapeChar (c : Char) : List Char :=
  if c = '"' then [ '\\', '"' ]
  else if c = '\\' then [ '\\', '\\' ]
  else if c = '\n' then [ '\\', 'n' ]
  else if c = '\r' then [ '\\', 'r' ]
  else if c = '\t' then [ '\\', 't' ]
  else if c.toNat < 32 then
    [ '\\', 'u', '0', '0', hexDigit (c.toNat / 16), hexDigit (c.toNat % 16) ]
  else [c]

/-- A string between quotes, behind a text. -/
def appendString (out s : String) : String :=
  (s.toList.foldl (fun out c => (escapeChar c).foldl String.push out) (out.push '"')).push '"'

mutual

/-- A value behind a text. -/
def append (out : String) : Json → String
  | null => out ++ "null"
  | bool true => out ++ "true"
  | bool false => out ++ "false"
  | integer n => out ++ toString n
  | decimal literal => out ++ literal
  | string s => appendString out s
  | garbled => out ++ "\"\\ud800\""
  | array [] => out ++ "[]"
  | array (item :: rest) => (appendItems (append (out.push '[') item) rest).push ']'
  | object [] => out ++ "\x7b\x7d"
  | object ((name, value) :: rest) =>
      let first := append ((appendString (out.push '\x7b') name).push ':') value
      (appendMembers first rest).push '\x7d'

/-- The items after the first, each behind a comma. -/
def appendItems (out : String) : List Json → String
  | [] => out
  | item :: rest => appendItems (append (out.push ',') item) rest

/-- The members after the first, each behind a comma. -/
def appendMembers (out : String) : List (String × Json) → String
  | [] => out
  | (name, value) :: rest =>
      appendMembers (append ((appendString (out.push ',') name).push ':') value) rest

end

/-- The text of a value. -/
def render (value : Json) : String :=
  append "" value

end Json
end RubyIndex
