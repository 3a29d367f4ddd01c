import RubyIndex.Bytes

/-!
# File URIs

The path of a file as a URI.  In each segment, bytes that mean something else in a URI, controls and
all bytes beyond ASCII are written as `%` and two hexadecimal digits.

* `percentEncode`, a segment;
* `fileUri`, a path.
-/

namespace RubyIndex
namespace Text

/-- A hexadecimal digit. -/
def hexDigit (n : Nat) : Char :=
  "0123456789ABCDEF".toList.getD n '0'

/-- Printable characters that cannot stand in a segment. -/
def reserved : List Char :=
  [ ' ', '"', '<', '>', '\x60', '#', '?', '\x7b', '\x7d', '/', '%', '\\' ]

/-- One byte of a segment. -/
def percentByte (b : UInt8) : List Char :=
  let n := b.toNat
  if n < 32 ∨ 126 < n ∨ reserved.contains (Char.ofNat n) then
    [ '%', hexDigit (n / 16), hexDigit (n % 16)]
  else [Char.ofNat n]

def percentEncode (segment : String) : String :=
  String.ofList ((utf8 segment).flatMap percentByte)

/-- The URI of the file with the given segments. -/
def fileUri (path : List String) : String :=
  "file:///" ++ "/".intercalate (path.map percentEncode)

end Text
end RubyIndex
