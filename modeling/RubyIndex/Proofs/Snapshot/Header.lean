import RubyIndex.Snapshot.Basic
import RubyIndex.Proofs.Datum.Fields
import RubyIndex.Proofs.Definition.RoundTrip
import RubyIndex.Proofs.Definition.Sizes

/-!
# The header of a snapshot is checked first

A document is read twice: once for its header alone, and again with the definitions once the header
has passed.

* `readHeader?`, `readContents?`, the two readings of a document;
* `header?_entries`, the first reading sees nothing but the entry of the header;
* `header?_of_contents?`, `header_eq_of_contents?`, both readings find the same header;
* `load_checks_header_first`, how a document is answered from the two readings.
-/

namespace RubyIndex
namespace Snapshot

open Datum (bind_some slots?_record required?_of naturalBelow?_natural)
open MessagePack (FitsText Writable writable_record writable_string writable_natural)

/-- The header of the document in some bytes, read on its own. -/
def readHeader? (bytes : List UInt8) : Option Header :=
  (MessagePack.read? bytes).bind header?

/-- The header and the definitions of the document in some bytes. -/
def readContents? (bytes : List UInt8) : Option (Header × List Definition) :=
  (MessagePack.read? bytes).bind contents?

/-! ## Written headers -/

namespace Header

theorem ofDatum?_toJson {mark : Nat → Datum} (hmark : ∀ n, (mark n).natural? = some n)
    (h : Header) : ofDatum? (h.toJson.toDatum mark) = some h := by
  refine bind_some (slots?_record rfl (by decide)) ?_
  refine bind_some (required?_of rfl rfl) ?_
  refine bind_some (required?_of rfl (naturalBelow?_natural hmark h.version.toNat_lt)) ?_
  refine bind_some (required?_of rfl (naturalBelow?_natural hmark h.createdAt.toNat_lt)) ?_
  simp

theorem writable {h : Header} (hmagic : FitsText h.magic) (depth : Nat) :
    Writable (depth + 1) (h.toJson.toDatum .unsigned) := by
  refine writable_record ["magic", "version", "created_at"] rfl (by decide) ?_
  simp only [List.forall_mem_cons]
  exact ⟨writable_string hmagic _, writable_natural (toNat_lt_size64 _) _,
    writable_natural h.createdAt.toNat_lt _, by simp⟩

end Header

/-! ## The header alone -/

/-- The header is read from its own entry, whatever the other entries of the document hold. -/
theorem header?_entries {before after : List (Datum × Datum)} (header : Datum)
    (h : ∀ e ∈ before ++ after, Datum.key? ["header"] e.1 = some .unknown) :
    header? (.map (before ++ (.text "header", header) :: after)) = Header.ofDatum? header := by
  have hbefore : ∀ e ∈ before, Datum.key? ["header"] e.1 = some .unknown := fun e he =>
    h e (List.mem_append_left _ he)
  have hafter : ∀ e ∈ after, Datum.key? ["header"] e.1 = some .unknown := fun e he =>
    h e (List.mem_append_right _ he)
  have hrest := Datum.fileEntries?_unknown hafter [some header] []
  rw [List.append_nil] at hrest
  have hkey : Datum.key? ["header"] (.text "header") = some (.field 0) := rfl
  have hfiled : Datum.fileEntries? ["header"] [none] (before ++ (.text "header", header) :: after) =
      some [some header] := by
    rw [Datum.fileEntries?_unknown hbefore]
    simp only [Datum.fileEntries?, hkey, Datum.fill?, Option.bind_some, hrest]
  simp [header?, Datum.slots?, hfiled, Datum.Slots.required?, Datum.Slots.slot]

theorem readHeader?_entries {bytes : List UInt8} {before after : List (Datum × Datum)}
    {header : Datum}
    (hread : MessagePack.read? bytes = some (.map (before ++ (.text "header", header) :: after)))
    (hothers : ∀ e ∈ before ++ after, Datum.key? ["header"] e.1 = some .unknown) :
    readHeader? bytes = Header.ofDatum? header := by
  rw [readHeader?, hread, Option.bind_some, header?_entries header hothers]

/-! ## Both readings -/

/-- A map that is read with its definitions shows the same header on its own. -/
theorem header?_of_contents? {entries : List (Datum × Datum)} {h : Header}
    {definitions : List Definition} (hcontents : contents? (.map entries) = some (h, definitions)) :
    header? (.map entries) = some h := by
  rcases Option.bind_eq_some_iff.1 hcontents with ⟨s, hs, hcontents⟩
  rcases Option.bind_eq_some_iff.1 hcontents with ⟨h', hread, hcontents⟩
  rcases Option.bind_eq_some_iff.1 hcontents with ⟨definitions', _, hpair⟩
  cases hpair
  rcases Option.map_eq_some_iff.1 hs with ⟨filed, hfiled, rfl⟩
  -- the record with both fields files the header as the record of the header alone
  have hboth : Datum.fileEntries? (["header"] ++ ["definitions"]) ([none] ++ [none]) entries =
      some filed := hfiled
  rcases Datum.fileEntries?_append rfl hboth with ⟨front, back, rfl, hlength, hfront⟩
  rcases List.length_eq_one_iff.1 hlength with ⟨slot, rfl⟩
  have hslots : Datum.slots? ["header"] (.map entries) = some ⟨false, [slot]⟩ :=
    congrArg (Option.map (Datum.Slots.mk false)) hfront
  rw [header?, hslots]
  exact hread

/-- A document that shows a header on its own shows the same one together with its definitions. -/
theorem header_eq_of_contents? {d : Datum} {h h' : Header} {definitions : List Definition}
    (hheader : header? d = some h) (hcontents : contents? d = some (h', definitions)) : h' = h := by
  rcases Option.bind_eq_some_iff.1 hheader with ⟨s, hs, hread⟩
  rcases Option.bind_eq_some_iff.1 hcontents with ⟨s', hs', hrest⟩
  rcases Option.bind_eq_some_iff.1 hrest with ⟨h'', hread', hrest⟩
  rcases Option.bind_eq_some_iff.1 hrest with ⟨definitions', hlist, hpair⟩
  cases hpair
  cases d with
  | map entries => exact Option.some.inj ((header?_of_contents? hcontents).symm.trans hheader)
  | list items =>
      -- a list with one item has no definitions, a longer one no header on its own
      match items with
      | [] =>
          cases hs
          cases hread
      | [_] =>
          cases hs'
          cases hlist
      | _ :: _ :: _ => cases hs
  | binary bytes =>
      -- a byte is no header
      match bytes with
      | [] =>
          cases hs
          cases hread
      | _ :: _ =>
          cases hs
          cases hread
  | nil | bool | unsigned | signed | real | text | garbled | extension => cases hs

theorem header_eq_of_readContents? {bytes : List UInt8} {h h' : Header}
    {definitions : List Definition} (hheader : readHeader? bytes = some h)
    (hcontents : readContents? bytes = some (h', definitions)) : h' = h := by
  rcases Option.bind_eq_some_iff.1 hheader with ⟨d, hd, hheader⟩
  rcases Option.bind_eq_some_iff.1 hcontents with ⟨d', hd', hcontents⟩
  cases hd.symm.trans hd'
  exact header_eq_of_contents? hheader hcontents

/-! ## Answers -/

/-- Loading, as a decision on the two readings. -/
theorem load_eq (bytes : List UInt8) :
    load bytes = (readHeader? bytes).elim (.error .undecodable) fun h =>
      if h.magic ≠ magic then .error .badMagic
      else if h.version ≠ version then .error (.unsupportedVersion h.version)
      else (readContents? bytes).elim (.error .undecodable) .ok := by
  unfold load readHeader? readContents?
  cases MessagePack.read? bytes with
  | none => rfl
  | some d =>
      simp only [Option.bind_some]
      cases header? d <;> rfl

/-- Everything that can come of loading a document, with the readings that lead to it. -/
theorem load_cases (bytes : List UInt8) :
    (readHeader? bytes = none ∧ load bytes = .error .undecodable) ∨
    ∃ h, readHeader? bytes = some h ∧
      ((h.magic ≠ magic ∧ load bytes = .error .badMagic) ∨
      (h.magic = magic ∧ h.version ≠ version ∧
        load bytes = .error (.unsupportedVersion h.version)) ∨
      (h.magic = magic ∧ h.version = version ∧
        readContents? bytes = none ∧ load bytes = .error .undecodable) ∨
      ∃ definitions, h.magic = magic ∧ h.version = version ∧
        readContents? bytes = some (h, definitions) ∧ load bytes = .ok (h, definitions)) := by
  have hload := load_eq bytes
  cases hheader : readHeader? bytes with
  | none => exact .inl ⟨rfl, by simpa [hheader] using hload⟩
  | some h =>
      refine .inr ⟨h, rfl, ?_⟩
      rw [hheader, Option.elim_some] at hload
      by_cases hmagic : h.magic = magic
      case neg => exact .inl ⟨hmagic, by rw [hload, if_pos hmagic]⟩
      rw [if_neg (by simpa using hmagic)] at hload
      by_cases hversion : h.version = version
      case neg => exact .inr (.inl ⟨hmagic, hversion, by rw [hload, if_pos hversion]⟩)
      rw [if_neg (by simpa using hversion)] at hload
      cases hcontents : readContents? bytes with
      | none =>
          exact .inr (.inr (.inl ⟨hmagic, hversion, rfl, by rw [hload, hcontents]; rfl⟩))
      | some contents =>
          rcases contents with ⟨h', definitions⟩
          cases header_eq_of_readContents? hheader hcontents
          exact .inr (.inr (.inr
            ⟨definitions, hmagic, hversion, rfl, by rw [hload, hcontents]; rfl⟩))

/-- A document is loaded when the header is one of this version and both readings succeed, and the
header is the one of the first reading.  Another magic or version is reported whatever the second
reading comes to, and the first reading depends on the entry of the header alone. -/
theorem load_checks_header_first (bytes : List UInt8) :
    (∀ h definitions, load bytes = .ok (h, definitions) ↔
      readHeader? bytes = some h ∧ h.magic = magic ∧ h.version = version ∧
        readContents? bytes = some (h, definitions)) ∧
    (load bytes = .error .badMagic ↔ ∃ h, readHeader? bytes = some h ∧ h.magic ≠ magic) ∧
    (∀ found, load bytes = .error (.unsupportedVersion found) ↔
      ∃ h, readHeader? bytes = some h ∧ h.magic = magic ∧ h.version ≠ version ∧
        h.version = found) ∧
    (load bytes = .error .undecodable ↔
      readHeader? bytes = none ∨
      ∃ h, readHeader? bytes = some h ∧ h.magic = magic ∧ h.version = version ∧
        readContents? bytes = none) ∧
    (∀ before header after,
      MessagePack.read? bytes = some (.map (before ++ (.text "header", header) :: after)) →
      (∀ e ∈ before ++ after, Datum.key? ["header"] e.1 = some .unknown) →
      readHeader? bytes = Header.ofDatum? header) := by
  rcases load_cases bytes with ⟨hheader, hload⟩ | ⟨h, hheader, hcases⟩
  · rw [hload]
    refine ⟨?_, ?_, ?_, ?_, fun _ _ _ => readHeader?_entries⟩ <;> simp [hheader]
  · rcases hcases with ⟨hmagic, hload⟩ | ⟨hmagic, hversion, hload⟩ |
      ⟨hmagic, hversion, hcontents, hload⟩ | ⟨definitions, hmagic, hversion, hcontents, hload⟩
    all_goals
      rw [hload]
      refine ⟨?_, ?_, ?_, ?_, fun _ _ _ => readHeader?_entries⟩ <;> grind

/-- A document of a later version, with something else in place of the definitions. -/
def laterDocument : Datum :=
  .map ([(.text "definitions", .bool true)] ++
    (.text "header", (Header.toJson ⟨magic, 2, 0⟩).toDatum .unsigned) :: [])

theorem load_laterDocument :
    load (MessagePack.write laterDocument) = .error (.unsupportedVersion 2) := by
  have hwritable : Writable MessagePack.maxDepth laterDocument := by
    refine .map (by decide) ?_ ?_
    · simp only [List.forall_mem_append, List.forall_mem_cons]
      exact ⟨⟨.text (by decide), by simp⟩, .text (by decide), by simp⟩
    · simp only [List.forall_mem_append, List.forall_mem_cons]
      exact ⟨⟨.bool true, by simp⟩, Header.writable (by decide) 1021, by simp⟩
  have hread := MessagePack.read?_write hwritable []
  rw [List.append_nil] at hread
  have hothers : ∀ e ∈ [(Datum.text "definitions", Datum.bool true)] ++ [],
      Datum.key? ["header"] e.1 = some .unknown := by
    simp [Datum.key?, Datum.indexOf?]
  rcases load_checks_header_first (MessagePack.write laterDocument) with
    ⟨-, -, hversion, -, hentries⟩
  have hheader := (hentries _ _ _ hread hothers).trans (Header.ofDatum?_toJson (fun _ => rfl) _)
  exact (hversion 2).2 ⟨⟨magic, 2, 0⟩, hheader, rfl, by decide, rfl⟩

end Snapshot
end RubyIndex
