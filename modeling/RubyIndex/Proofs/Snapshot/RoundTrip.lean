import RubyIndex.Snapshot.Basic
import RubyIndex.Proofs.Definition.RoundTrip
import RubyIndex.Proofs.Definition.Sizes
import RubyIndex.Proofs.Snapshot.Frame
import RubyIndex.Proofs.Snapshot.Header

/-!
# Dumped snapshots are loaded back

* `writable_documentJson`, a document of definitions that fit can be written;
* `load_document`, both readings of a written document succeed, so it is loaded as it was written;
* `unpack_dump`, the same for the compressed document, however it is compressed.
-/

namespace RubyIndex
namespace Snapshot

open Datum (bind_some slots?_record required?_of listOf?_ofList)
open MessagePack (FitsText FitsList Writable writable_record writable_ofList)

variable {h : Header} {definitions : List Definition}

/-- The header and the definitions as a document is written from them. -/
def documentJson (h : Header) (definitions : List Definition) : Json :=
  .object [("header", h.toJson), ("definitions", .ofList Definition.toJson definitions)]

theorem document_eq_write (h : Header) (definitions : List Definition) :
    document h definitions = MessagePack.write ((documentJson h definitions).toDatum .unsigned) :=
  rfl

/-! ## Writing -/

theorem writable_documentJson (hmagic : FitsText h.magic)
    (hfits : FitsList Definition.Fits definitions) (depth : Nat) :
    Writable (depth + 9) ((documentJson h definitions).toDatum .unsigned) := by
  refine writable_record ["header", "definitions"] rfl (by decide) ?_
  simp only [List.forall_mem_cons]
  exact ⟨Header.writable hmagic _,
    writable_ofList hfits fun _ hd => Definition.writable hd depth, by simp⟩

theorem read?_document (hmagic : FitsText h.magic) (hfits : FitsList Definition.Fits definitions) :
    MessagePack.read? (document h definitions) =
      some ((documentJson h definitions).toDatum .unsigned) := by
  -- nine containers at most stand around each other, far from the limit of the reader
  have hwritable : Writable MessagePack.maxDepth ((documentJson h definitions).toDatum .unsigned) :=
    writable_documentJson hmagic hfits 1014
  have hread := MessagePack.read?_write hwritable []
  rwa [List.append_nil, ← document_eq_write] at hread

/-! ## Reading -/

theorem header?_documentJson (h : Header) (definitions : List Definition) :
    header? ((documentJson h definitions).toDatum .unsigned) = some h := by
  -- the definitions are one more entry, with a key that does not name the header
  let others := [(Datum.text "definitions",
    (Json.ofList Definition.toJson definitions).toDatum .unsigned)]
  have hothers : ∀ e ∈ [] ++ others, Datum.key? ["header"] e.1 = some .unknown := by
    simp [others, Datum.key?, Datum.indexOf?]
  exact (header?_entries _ hothers).trans (h.ofDatum?_toJson fun _ => rfl)

theorem contents?_documentJson (h : Header) (definitions : List Definition) :
    contents? ((documentJson h definitions).toDatum .unsigned) = some (h, definitions) := by
  refine bind_some (slots?_record rfl (by decide)) ?_
  refine bind_some (required?_of rfl (h.ofDatum?_toJson fun _ => rfl)) ?_
  refine bind_some
    (required?_of rfl (listOf?_ofList fun d _ => d.ofDatum?_toJson fun _ => rfl)) ?_
  rfl

theorem load_document (now : UInt64) (hfits : FitsList Definition.Fits definitions) :
    load (document (.current now) definitions) = .ok (.current now, definitions) := by
  have hmagic : FitsText (Header.current now).magic := show FitsText magic by decide
  have hread := read?_document hmagic hfits
  have hheader : readHeader? (document (.current now) definitions) = some (.current now) := by
    rw [readHeader?, hread, Option.bind_some, header?_documentJson]
  have hcontents : readContents? (document (.current now) definitions) =
      some (.current now, definitions) := by
    rw [readContents?, hread, Option.bind_some, contents?_documentJson]
  rw [load_eq, hheader, hcontents]
  rfl

/-! ## Compressed documents -/

theorem unpack_of_decompress {z : Compression} {bytes content : List UInt8}
    (h : z.decompress bytes = .ok content) : z.unpack bytes = load content := by
  rw [Compression.unpack, h]

/-- A snapshot of definitions that fit is loaded as it was dumped, whatever compresses it and loses
nothing. -/
theorem unpack_dump {z : Compression} (hz : z.Lossless) (now : UInt64)
    {definitions : List Definition} (hfits : FitsList Definition.Fits definitions) :
    z.unpack (z.dump now definitions) = .ok (⟨magic, version, now⟩, definitions) := by
  calc z.unpack (z.dump now definitions)
      = load (document (.current now) definitions) := unpack_of_decompress (hz _)
    _ = .ok (.current now, definitions) := load_document now hfits

/-- A class with a resolved and a written superclass, a described method and a located constant. -/
def library : List Definition :=
  [.ofClass {
      base := {
        constant := ⟨"A::Thing", none, none⟩
        includes := ["Comparable"]
        writtenIncludes := [⟨"Comparable", ["A"]⟩] }
      superclass := some "Base"
      writtenSuperclass := some ⟨"Base", ["A"]⟩ },
    .ofMethod {
      kind := .instanceMethod
      name := "+"
      owner := "String"
      signatures := [⟨"(String other)", "String"⟩]
      parameters := [⟨"other", ["String"]⟩]
      description := some "Both texts, one after the other." },
    .ofConstant ⟨"RUBY_VERSION", none, some ⟨⟨⟨3, 0⟩, ⟨70000, 4294967295⟩⟩, "file:///core.rbs"⟩⟩]

theorem unpack_dump_library :
    Compression.stored.Lossless ∧ FitsList Definition.Fits library ∧
      unpack (dump 1700000000 library) = .ok (⟨magic, version, 1700000000⟩, library) := by
  have hfits : FitsList Definition.Fits library := by decide
  exact ⟨Compression.lossless_stored, hfits,
    unpack_dump Compression.lossless_stored 1700000000 hfits⟩

end Snapshot
end RubyIndex
