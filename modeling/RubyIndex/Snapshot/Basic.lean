import RubyIndex.Definition.Codec
import RubyIndex.MessagePack.Reader
import RubyIndex.MessagePack.Writer
import RubyIndex.Snapshot.Frame

/-!
# Snapshots of the built-in library

A snapshot is a MessagePack document with a header and the definitions, which is compressed.  The
header is read and checked before the definitions are.

* `Header`, `Header.current`;
* `document`, `load`, writing and reading the document;
* `Compression.dump`, `Compression.unpack`, the same for the compressed document;
* `dump`, `unpack`, for the document in a stored frame.
-/

namespace RubyIndex
namespace Snapshot

/-! ## Headers -/

def magic : String :=
  "rubyscope-builtins"

def version : UInt32 :=
  1

structure Header where
  magic : String
  version : UInt32
  /-- Seconds since the Unix epoch. -/
  createdAt : UInt64
  deriving DecidableEq, Repr, Inhabited

namespace Header

/-- The header of a snapshot made now. -/
def current (now : UInt64) : Header :=
  ⟨Snapshot.magic, Snapshot.version, now⟩

def toJson (h : Header) : Json :=
  .object [
    ("magic", .string h.magic),
    ("version", .natural h.version.toNat),
    ("created_at", .natural h.createdAt.toNat)]

def ofDatum? (d : Datum) : Option Header := do
  let s ← d.slots? ["magic", "version", "created_at"]
  let magic ← s.required? 0 Datum.text?
  let version ← s.required? 1 (Datum.naturalBelow? UInt32.size)
  let createdAt ← s.required? 2 (Datum.naturalBelow? UInt64.size)
  some ⟨magic, UInt32.ofNat version, UInt64.ofNat createdAt⟩

end Header

/-! ## Errors -/

/-- Why a snapshot cannot be read. -/
inductive Error
  | undecodable
  | compression (cause : String)
  | badMagic
  | unsupportedVersion (found : UInt32)
  deriving DecidableEq, Repr

def Error.message : Error → String
  | undecodable => "failed to decode snapshot: invalid document"
  | compression cause => "snapshot compression failed: " ++ cause
  | badMagic => "not a rubyscope snapshot (bad magic)"
  | unsupportedVersion found =>
      s!"unsupported snapshot version {found.toNat} (expected {version.toNat})"

/-! ## Documents -/

/-- The document of a header and definitions. -/
def document (h : Header) (definitions : List Definition) : List UInt8 :=
  let json : Json :=
    .object [("header", h.toJson), ("definitions", .ofList Definition.toJson definitions)]
  MessagePack.write (json.toDatum .unsigned)

/-- The header of a document, whatever else the document holds. -/
def header? (d : Datum) : Option Header :=
  (d.slots? ["header"]).bind fun s => s.required? 0 Header.ofDatum?

/-- The header and the definitions of a document. -/
def contents? (d : Datum) : Option (Header × List Definition) := do
  let s ← d.slots? ["header", "definitions"]
  let header ← s.required? 0 Header.ofDatum?
  let definitions ← s.required? 1 (Datum.listOf? Definition.ofDatum?)
  some (header, definitions)

/-- Reads a document: first its header, which must be one of a snapshot of this version, then the
definitions. -/
def load (bytes : List UInt8) : Except Error (Header × List Definition) :=
  match MessagePack.read? bytes with
  | none => .error .undecodable
  | some d =>
      match header? d with
      | none => .error .undecodable
      | some h =>
          if h.magic ≠ magic then .error .badMagic
          else if h.version ≠ version then .error (.unsupportedVersion h.version)
          else (contents? d).elim (.error .undecodable) .ok

end Snapshot

/-! ## Compressed documents -/

namespace Compression

/-- The bytes of a snapshot made now. -/
def dump (z : Compression) (now : UInt64) (definitions : List Definition) : List UInt8 :=
  z.compress (Snapshot.document (.current now) definitions)

/-- Reads the bytes of a snapshot. -/
def unpack (z : Compression) (bytes : List UInt8) :
    Except Snapshot.Error (Snapshot.Header × List Definition) :=
  match z.decompress bytes with
  | .error cause => .error (.compression cause)
  | .ok content => Snapshot.load content

end Compression

namespace Snapshot

/-- The bytes of a snapshot in a stored frame. -/
def dump (now : UInt64) (definitions : List Definition) : List UInt8 :=
  Compression.stored.dump now definitions

/-- Reads the bytes of a snapshot in a stored frame. -/
def unpack (bytes : List UInt8) : Except Error (Header × List Definition) :=
  Compression.stored.unpack bytes

end Snapshot
end RubyIndex
