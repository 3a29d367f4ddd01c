import RubyIndex.Concrete.Table
import RubyIndex.Files.Basic
import RubyIndex.Json.Printer

/-!
# Bundles of files

Files are handed over as a JSON array.  Each entry has a `path` and one of

* `text`, a source text, with its concrete tree in `cst`;
* `hex`, any bytes, by their hexadecimal digits;
* `json`, a value, which the file holds in written form.
-/

namespace RubyIndex
namespace Bundle

/-- The value of a hexadecimal digit; any other character counts as zero. -/
def digitValue (c : Char) : Nat :=
  if c.isDigit then c.toNat - '0'.toNat
  else if 'a' ≤ c.toLower ∧ c.toLower ≤ 'f' then c.toLower.toNat - 'a'.toNat + 10
  else 0

/-- Bytes by pairs of hexadecimal digits. -/
def ofHex : List Char → List UInt8
  | high :: low :: rest => UInt8.ofNat (16 * digitValue high + digitValue low) :: ofHex rest
  | _ => []

/-- The file of an entry. -/
def file (entry : Json) : File :=
  match entry.member "text", entry.member "hex" with
  | .string text, _ => ⟨utf8 text, Concrete.Node.ofJson? (entry.member "cst")⟩
  | _, .string hex => ⟨ofHex hex.toList, none⟩
  | _, _ => ⟨utf8 (entry.member "json").render, none⟩

/-- Adds the file of an entry, if its path can be used. -/
def addEntry (directory : List String) (fs : Files) (entry : Json) : Files :=
  match entry.member "path" with
  | .string path => (fs.write directory path (file entry)).1
  | _ => fs

/-- The files of a bundle, below a directory. -/
def files (directory : List String) (bundle : Json) : Files :=
  let start : Files :=
    { directories := (List.range directory.length).map fun n => directory.take (n + 1) }
  bundle.items.foldl (addEntry directory) start

end Bundle
end RubyIndex
