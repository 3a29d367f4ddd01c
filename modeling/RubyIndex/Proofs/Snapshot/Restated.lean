import RubyIndex.Proofs.Definition.Restated
import RubyIndex.Proofs.Snapshot.RoundTrip

/-!
# Snapshots written in another way

The fields of a snapshot go by name, so its records may have their fields in any order and others
among them, leave out what is nil or empty, and have their numbers in any form.  Such documents come
from later versions and from other writers.

* `documentRestating`, which documents say the same;
* `Restates`, some bytes say what the document of some definitions says;
* `unpack_restated`, whatever says the same is loaded with the same definitions.
-/

namespace RubyIndex
namespace Snapshot

open Datum (Restating Respects respects_same respects_naturalBelow? respects_listOf?
  respects_record)
open MessagePack (FitsList Encodes Writable encodes_write)

/-! ## Documents that say the same -/

def Header.restating : Restating :=
  .record [
    ⟨"magic", .required, .same⟩,
    ⟨"version", .required, .natural⟩,
    ⟨"created_at", .required, .natural⟩]

def documentRestating : Restating :=
  .record [
    ⟨"header", .required, Header.restating⟩,
    ⟨"definitions", .required, .listOf Definition.restating⟩]

theorem Header.respects_ofDatum? : Respects restating ofDatum? := by
  refine respects_record rfl (by decide) ?_
  intro s s' h
  rw [h.required?_eq 0 rfl (respects_same _), h.required?_eq 1 rfl (respects_naturalBelow? _),
    h.required?_eq 2 rfl (respects_naturalBelow? _)]

theorem respects_contents? : Respects documentRestating contents? := by
  refine respects_record rfl (by decide) ?_
  intro s s' h
  rw [h.required?_eq 0 rfl Header.respects_ofDatum?,
    h.required?_eq 1 rfl (respects_listOf? Definition.respects_ofDatum?)]

/-- The bytes are, in some form, a document that says the same as the one written at `now` for the
definitions. -/
def Restates (now : UInt64) (definitions : List Definition) (content : List UInt8) : Prop :=
  ∃ d, documentRestating.Holds
      ((documentJson (.current now) definitions).toDatum .unsigned) d ∧
    Encodes MessagePack.maxDepth d content

variable {now : UInt64} {definitions : List Definition} {content : List UInt8}

/-- The document that is written says the same as itself. -/
theorem restates_document (hfits : FitsList Definition.Fits definitions) :
    Restates now definitions (document (.current now) definitions) := by
  have hmagic : MessagePack.FitsText (Header.current now).magic :=
    show MessagePack.FitsText magic by decide
  have hwritable := writable_documentJson (h := .current now) hmagic hfits 1014
  exact ⟨_, documentRestating.refl _, MessagePack.encodes_write hwritable⟩

/-! ## Loading -/

/-- What says the same as a map for a record is a map itself. -/
theorem exists_map_of_holds {fields : List Datum.Field} {entries : List (Datum × Datum)} {d : Datum}
    (h : (Restating.record fields).Holds (.map entries) d) : ∃ entries', d = .map entries' := by
  cases h with
  | unchanged => exact ⟨_, rfl⟩
  | byName => exact ⟨_, rfl⟩

theorem load_restated (h : Restates now definitions content) :
    load content = .ok (.current now, definitions) := by
  rcases h with ⟨d, hsame, hencodes⟩
  have hread : MessagePack.read? content = some d := by
    simpa using MessagePack.read?_encodes hencodes []
  have hcontents : contents? d = some (.current now, definitions) :=
    (respects_contents? hsame).trans (contents?_documentJson (.current now) definitions)
  -- the first reading knows the field of the header alone, and finds it among the others
  rcases exists_map_of_holds hsame with ⟨entries, rfl⟩
  have hheader : header? (.map entries) = some (.current now) := header?_of_contents? hcontents
  rw [load_eq, readHeader?, readContents?, hread, Option.bind_some, Option.bind_some, hheader,
    hcontents]
  rfl

/-- The document written for definitions that fit says what it should, and whatever else says the
same is loaded with the same definitions, from all bytes that are decompressed to it. -/
theorem unpack_restated (now : UInt64) (definitions : List Definition) :
    (FitsList Definition.Fits definitions →
      Restates now definitions (document (.current now) definitions)) ∧
    ∀ (z : Compression) (content bytes : List UInt8), Restates now definitions content →
      z.decompress bytes = .ok content →
      z.unpack bytes = .ok (⟨magic, version, now⟩, definitions) := by
  refine ⟨restates_document, ?_⟩
  intro z content bytes hrestates hcontent
  exact (unpack_of_decompress hcontent).trans (load_restated hrestates)

/-! ## A document from elsewhere -/

def bareModule : Definition :=
  .ofModule { constant := ⟨"A", none, none⟩ }

/-- The module with nothing but its name, and with a note that no reader knows. -/
def notedModule : Datum :=
  .map [(.text "module", .map [(.text "constant", .map [
    (.text "note", .list [.nil, .signed (-1)]), (.text "qualified_name", .text "A")])])]

/-- A header in another order, with its version in two bytes and a sign. -/
def signedHeader : Datum :=
  .map [(.text "version", .signed 1), (.text "created_at", .unsigned 1700000000),
    (.text "magic", .text magic)]

def signedHeaderBytes : List UInt8 :=
  [0x83] ++ [
    MessagePack.write (.text "version") ++ [0xD1, 0x00, 0x01],
    MessagePack.write (.text "created_at") ++ MessagePack.write (.unsigned 1700000000),
    MessagePack.write (.text "magic") ++ MessagePack.write (.text magic)].flatten

/-- The definitions come first, and the count of the entries takes two bytes. -/
def notedContent : List UInt8 :=
  [0xDE, 0x00, 0x02] ++ [
    MessagePack.write (.text "definitions") ++ MessagePack.write (.list [notedModule]),
    MessagePack.write (.text "header") ++ signedHeaderBytes].flatten

theorem holds_notedModule :
    Definition.restating.Holds (bareModule.toJson.toDatum .unsigned) notedModule := by
  refine .body (List.mem_of_getElem? (i := 1) rfl) ?_
  refine .byName (.both ?_ (.dropped rfl (.dropped rfl (.dropped rfl (.dropped rfl .nil)))))
    .inOrder .inOrder
  -- inside of the constant stands the note, and only the name is left of its fields
  exact .byName (.both rfl (.dropped rfl (.dropped rfl .nil))) .inOrder
    (.insert .inOrder (.text (by decide)) _)

theorem holds_signedHeader :
    Header.restating.Holds ((Header.current 1700000000).toJson.toDatum .unsigned) signedHeader := by
  refine .byName (.both rfl (.both (.signed 1) (.both (.unchanged _) .nil))) .inOrder
    (.perm .inOrder ?_)
  -- the magic stands behind the two numbers
  exact @List.perm_append_comm _ [_, _] [_]

theorem writable_notedModule (depth : Nat) : Writable (depth + 4) notedModule := by
  have hnote : Writable (depth + 1) (.list [.nil, .signed (-1)]) := by
    refine .list (by decide) ?_
    simp only [List.forall_mem_cons]
    exact ⟨.nil, .negative (n := 0) (by decide), by simp⟩
  have hconstant : Writable (depth + 2)
      (.map [(.text "note", .list [.nil, .signed (-1)]), (.text "qualified_name", .text "A")]) := by
    refine .map (by decide) ?_ ?_ <;> simp only [List.forall_mem_cons]
    · exact ⟨.text (by decide), .text (by decide), by simp⟩
    · exact ⟨hnote, .text (by decide), by simp⟩
  have hmodule : ∀ {depth name body}, MessagePack.FitsText name → Writable depth body →
      Writable (depth + 1) (.map [(.text name, body)]) := by
    intro depth name body hname hbody
    exact .map (by simp [UInt32.size]) (by simpa using .text hname) (by simpa using hbody)
  exact hmodule (by decide) (hmodule (by decide) hconstant)

theorem encodes_signedHeader (depth : Nat) :
    Encodes (depth + 1) signedHeader signedHeaderBytes := by
  refine @Encodes.map depth [0x83] [
    ((.text "version", MessagePack.write (.text "version")), (.signed 1, [0xD1, 0x00, 0x01])),
    ((.text "created_at", MessagePack.write (.text "created_at")),
      (.unsigned 1700000000, MessagePack.write (.unsigned 1700000000))),
    ((.text "magic", MessagePack.write (.text "magic")),
      (.text magic, MessagePack.write (.text magic)))] (.inl ⟨by decide, rfl⟩) ?_ ?_
  · simp only [List.forall_mem_cons]
    exact ⟨encodes_write (.text (by decide)), encodes_write (.text (by decide)),
      encodes_write (.text (by decide)), by simp⟩
  · have hversion : Encodes depth (.signed 1) (0xD1 :: bigEndian 2 1) :=
      .signed (by decide) (by decide) (by decide)
    simp only [List.forall_mem_cons]
    exact ⟨hversion,
      encodes_write (.unsigned (by decide)), encodes_write (.text (by decide)), by simp⟩

theorem encodes_notedContent (depth : Nat) :
    Encodes (depth + 6)
      (.map [(.text "definitions", .list [notedModule]), (.text "header", signedHeader)])
      notedContent := by
  refine @Encodes.map (depth + 5) [0xDE, 0x00, 0x02] [
    ((.text "definitions", MessagePack.write (.text "definitions")),
      (.list [notedModule], MessagePack.write (.list [notedModule]))),
    ((.text "header", MessagePack.write (.text "header")), (signedHeader, signedHeaderBytes))]
    (.inr ⟨(0xDE, 2), by decide, by decide, rfl⟩) ?_ ?_
  · simp only [List.forall_mem_cons]
    exact ⟨encodes_write (.text (by decide)), encodes_write (.text (by decide)), by simp⟩
  · simp only [List.forall_mem_cons]
    have hlist : Writable (depth + 5) (.list [notedModule]) :=
      .list (by decide) (by simpa using writable_notedModule depth)
    exact ⟨encodes_write hlist, encodes_signedHeader _, by simp⟩

theorem restates_notedContent : Restates 1700000000 [bareModule] notedContent := by
  refine ⟨_, ?_, encodes_notedContent 1017⟩
  exact .byName (.both holds_signedHeader (.both (.items (.cons holds_notedModule .nil)) .nil))
    .inOrder (.perm .inOrder (.swap ..))

theorem unpack_notedContent :
    Restates 1700000000 [bareModule] notedContent ∧
      Compression.stored.decompress (Frame.store notedContent) = .ok notedContent ∧
      unpack (Frame.store notedContent) = .ok (⟨magic, version, 1700000000⟩, [bareModule]) := by
  have hcontent := Compression.lossless_stored notedContent
  exact ⟨restates_notedContent, hcontent,
    (unpack_restated 1700000000 _).2 _ _ _ restates_notedContent hcontent⟩

end Snapshot
end RubyIndex
