import RubyIndex.Json.Basic

/-!
# Reading JSON text

`Json.parse?` reads one value with blanks around it.  The grammar is that of the JSON standard: no
leading zeros, no control characters in strings.  A string in which a surrogate stands alone is
garbled, and so is an object with such a name.
-/

namespace RubyIndex
namespace Json
namespace Reading

def isSpace (c : Char) : Bool :=
  c = ' ' || c = '\t' || c = '\n' || c = '\r'

def skipSpace (s : List Char) : List Char :=
  s.dropWhile isSpace

/-! ## Strings -/

def hexValue? (c : Char) : Option Nat :=
  if '0' ≤ c ∧ c ≤ '9' then some (c.toNat - 48)
  else if 'a' ≤ c ∧ c ≤ 'f' then some (c.toNat - 87)
  else if 'A' ≤ c ∧ c ≤ 'F' then some (c.toNat - 55)
  else none

/-- Four hexadecimal digits. -/
def unit? : List Char → Option (Nat × List Char)
  | a :: b :: c :: d :: rest => do
      let a ← hexValue? a
      let b ← hexValue? b
      let c ← hexValue? c
      let d ← hexValue? d
      some (((a * 16 + b) * 16 + c) * 16 + d, rest)
  | _ => none

/-- The character behind `\u`: one unit, or a high and a low surrogate.  Any other surrogate spells
no character. -/
def unicode? (s : List Char) : Option (Option Char × List Char) := do
  let (high, rest) ← unit? s
  if high < 0xD800 ∨ 0xDFFF < high then some (some (Char.ofNat high), rest)
  else if 0xDC00 ≤ high then some (none, rest)
  else match rest with
    | '\\' :: 'u' :: digits => do
        let (low, behind) ← unit? digits
        if 0xDC00 ≤ low ∧ low ≤ 0xDFFF then
          some (some (Char.ofNat (0x10000 + (high - 0xD800) * 0x400 + (low - 0xDC00))), behind)
        else some (none, rest)
    | _ => some (none, rest)

/-- The character behind a backslash, if it spells one. -/
def escape? : List Char → Option (Option Char × List Char)
  | '"' :: rest => some ('"', rest)
  | '\\' :: rest => some ('\\', rest)
  | '/' :: rest => some ('/', rest)
  | 'b' :: rest => some ('\x08', rest)
  | 'f' :: rest => some ('\x0c', rest)
  | 'n' :: rest => some ('\n', rest)
  | 'r' :: rest => some ('\r', rest)
  | 't' :: rest => some ('\t', rest)
  | 'u' :: rest => unicode? rest
  | _ => none

/-- The written characters of a string up to its closing quote, last one first. -/
def written? (done : List Char) : List Char → Option (List Char × List Char)
  | [] => none
  | '"' :: rest => some (done, rest)
  | '\\' :: c :: rest => written? (c :: '\\' :: done) rest
  | c :: rest => written? (c :: done) rest

/-- The characters that were written, whose first ones are `done`, last one first, unless one of
them spells no character.  A step reads at least one character, so the number of characters is steps
enough. -/
def unescape? : (steps : Nat) → (done : Option (List Char)) → List Char → Option (Option String)
  | _, done, [] => some (done.map fun cs => String.ofList cs.reverse)
  | 0, _, _ :: _ => none
  | steps + 1, done, c :: rest =>
      if c = '\\' then
        (escape? rest).bind fun (c, rest) =>
          unescape? steps (done.bind fun cs => c.map (· :: cs)) rest
      else if c.toNat < 32 then none
      else unescape? steps (done.map (c :: ·)) rest

/-- The rest of a string behind its opening quote, and the text it spells, if any. -/
def string? (s : List Char) : Option (Option String × List Char) :=
  (written? [] s).bind fun (reversed, rest) =>
    (unescape? reversed.length (some []) reversed.reverse).map fun text => (text, rest)

/-! ## Numbers -/

def isDigit (c : Char) : Bool :=
  '0' ≤ c && c ≤ '9'

def digitsValue (digits : List Char) : Nat :=
  digits.foldl (fun n c => n * 10 + (c.toNat - 48)) 0

/-- The digits before the point. -/
def whole? : List Char → Option (List Char × List Char)
  | '0' :: rest => some ([ '0' ], rest)
  | s =>
      match s.span isDigit with
      | ([], _) => none
      | (digits, rest) => some (digits, rest)

/-- A point with the digits behind it, or nothing. -/
def fraction? : List Char → Option (List Char × List Char)
  | '.' :: rest =>
      match rest.span isDigit with
      | ([], _) => none
      | (digits, rest) => some ('.' :: digits, rest)
  | s => some ([], s)

/-- An exponent, or nothing. -/
def exponent? : List Char → Option (List Char × List Char)
  | [] => some ([], [])
  | e :: rest =>
      if e = 'e' ∨ e = 'E' then
        let (sign, rest) := match rest with
          | '+' :: rest => ([ '+' ], rest)
          | '-' :: rest => ([ '-' ], rest)
          | rest => ([], rest)
        match rest.span isDigit with
        | ([], _) => none
        | (digits, rest) => some (e :: sign ++ digits, rest)
      else some ([], e :: rest)

/-- A number; negative zero counts as a decimal, as it is no integer of either sign. -/
def number? (s : List Char) : Option (Json × List Char) := do
  let (negative, rest) := match s with
    | '-' :: rest => (true, rest)
    | rest => (false, rest)
  let (whole, rest) ← whole? rest
  let (fraction, rest) ← fraction? rest
  let (exponent, rest) ← exponent? rest
  let value := digitsValue whole
  if fraction.isEmpty ∧ exponent.isEmpty ∧ ¬(negative ∧ value = 0) then
    some (.integer (if negative then -(Int.ofNat value) else Int.ofNat value), rest)
  else
    let sign := if negative then [ '-' ] else []
    some (.decimal (String.ofList (sign ++ whole ++ fraction ++ exponent)), rest)

/-! ## Values -/

/-- A fixed word. -/
def word? (word : String) (value : Json) (s : List Char) : Option (Json × List Char) :=
  if word.toList.isPrefixOf s then some (value, s.drop word.length) else none

/-- A member in front of others. -/
def consMember (name : Option String) (value : Json) (members : Option (List (String × Json))) :
    Option (List (String × Json)) :=
  name.bind fun name => members.map ((name, value) :: ·)

mutual

/-- A value after blanks.  Every step reads at least one character. -/
def value? : (steps : Nat) → List Char → Option (Json × List Char)
  | 0, _ => none
  | steps + 1, s =>
      match skipSpace s with
      | '"' :: rest => (string? rest).map fun (s, rest) => (s.elim .garbled .string, rest)
      | '[' :: rest =>
          match skipSpace rest with
          | ']' :: rest => some (.array [], rest)
          | rest => (items? steps rest).map fun (items, rest) => (.array items, rest)
      | '\x7b' :: rest =>
          match skipSpace rest with
          | '\x7d' :: rest => some (.object [], rest)
          | rest =>
              (members? steps rest).map fun (members, rest) =>
                (members.elim .garbled .object, rest)
      | 'n' :: rest => word? "null" .null ('n' :: rest)
      | 't' :: rest => word? "true" (.bool true) ('t' :: rest)
      | 'f' :: rest => word? "false" (.bool false) ('f' :: rest)
      | rest => number? rest

/-- The items of an array up to its closing bracket. -/
def items? : (steps : Nat) → List Char → Option (List Json × List Char)
  | 0, _ => none
  | steps + 1, s =>
      (value? steps s).bind fun (item, rest) =>
        match skipSpace rest with
        | ',' :: rest => (items? steps rest).map fun (items, rest) => (item :: items, rest)
        | ']' :: rest => some ([item], rest)
        | _ => none

/-- The members of an object up to its closing brace, if their names spell texts. -/
def members? : (steps : Nat) → List Char → Option (Option (List (String × Json)) × List Char)
  | 0, _ => none
  | steps + 1, s =>
      match skipSpace s with
      | '"' :: rest =>
          (string? rest).bind fun (name, rest) =>
            match skipSpace rest with
            | ':' :: rest =>
                (value? steps rest).bind fun (value, rest) =>
                  match skipSpace rest with
                  | ',' :: rest =>
                      (members? steps rest).map fun (members, rest) =>
                        (consMember name value members, rest)
                  | '\x7d' :: rest => some (consMember name value (some []), rest)
                  | _ => none
            | _ => none
      | _ => none

end

end Reading

/-- Reads a text that is one value with blanks around it. -/
def parse? (text : String) : Option Json :=
  let s := text.toList
  match Reading.value? (2 * s.length + 2) s with
  | some (value, rest) => if (Reading.skipSpace rest).isEmpty then some value else none
  | none => none

end Json
end RubyIndex
