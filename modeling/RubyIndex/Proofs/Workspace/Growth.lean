import Mathlib.Data.List.Nodup
import RubyIndex.CommandLine.Run
import RubyIndex.Proofs.Snapshot.RoundTrip
import RubyIndex.Proofs.Store.Removal
import RubyIndex.Proofs.Text.Percent
import RubyIndex.Proofs.Workspace.History

/-!
# Indexing files only adds names

Indexing a file again first drops what it declared, names of the library included that it had
reopened, and then declares it anew.  As long as a file reads the same every time, nothing is listed
for it but what it declares, so every name that goes comes back, whatever other files were indexed
in between.

* `Store.Grows`, every name of one store is found in another;
* `Store.ListsOnly`, what may be listed for documents whose versions are known;
* `Store.grows_update`, `Store.listsOnly_update`, one document;
* `Store.grows_foldl_update`, many documents one after the other;
* `CommandLine.exists_documents_of_indexAll`, the documents that a command indexes;
* `CommandLine.indexing_keeps_names`, for texts that are indexed in any order, and for the files of
  a command.
-/

namespace RubyIndex

namespace Store

/-! ## Names -/

/-- Every name that is found in `s` is found in `s'`. -/
def Grows (s s' : Store) : Prop :=
  ∀ name, (s.find? name).isSome → (s'.find? name).isSome

theorem Grows.refl (s : Store) : Grows s s :=
  fun _ h => h

theorem Grows.trans {s s' s'' : Store} (h : Grows s s') (h' : Grows s' s'') : Grows s s'' :=
  fun name hname => h' name (h name hname)

/-- With more names there are more definitions. -/
theorem Grows.size_le {s s' : Store} (h : Grows s s') (hkeys : s.entries.keys.Nodup) :
    s.size ≤ s'.size := by
  have hsubset : s.entries.keys ⊆ s'.entries.keys := by
    intro name hname
    exact Assoc.isSome_find?_iff.1 (h name (Assoc.isSome_find?_iff.2 hname))
  calc s.size
      = s.entries.keys.length := by simp [size, Assoc.keys]
    _ ≤ s'.entries.keys.length := hkeys.length_le_of_subset hsubset
    _ = s'.size := by simp [size, Assoc.keys]

/-! ## One document -/

/-- A document by its URI, and what it declares. -/
abbrev Version := String × List Definition

/-- A document declares what is located in itself. -/
def Version.Located (v : Version) : Prop :=
  OwnedBy v.1 v.2

/-- The same document declares the same every time. -/
def Steady (versions : List Version) : Prop :=
  ∀ v ∈ versions, ∀ v' ∈ versions, v.1 = v'.1 → v.2 = v'.2

/-- What is listed for a document is declared by a version of it. -/
def ListsOnly (s : Store) (versions : List Version) : Prop :=
  ∀ uri, ∀ name ∈ s.listing uri,
    ∃ v ∈ versions, v.1 = uri ∧ name ∈ v.2.map Definition.qualifiedName

/-- Reindexing a document that declares again all that is listed for it takes no name away. -/
theorem grows_update {s : Store} {v : Version}
    (h : ∀ name ∈ s.listing v.1, name ∈ v.2.map Definition.qualifiedName) :
    Grows s (s.update v.1 v.2) := by
  intro name hname
  by_cases hdeclared : name ∈ v.2.map Definition.qualifiedName
  · rcases exists_lastNamed?_iff.2 hdeclared with ⟨last, hlast⟩
    rcases find?_update_of_declared hlast s v.1 with ⟨d, hd, _⟩
    simp [hd]
  · -- not declared, so not listed, so the removal leaves it alone
    have hnotListed : name ∉ s.listing v.1 := fun hlisted => hdeclared (h name hlisted)
    rcases Option.isSome_iff_exists.1 hname with ⟨d, hd⟩
    rw [find?_update_of_not_declared hdeclared, find?_removeUri_of_kept hd (Or.inl hnotListed)]
    rfl

/-- A document that declares what is located in itself is listed for nothing else. -/
theorem listsOnly_update {s : Store} {versions : List Version} (h : s.ListsOnly versions)
    {v : Version} (hv : v ∈ versions) (hlocated : v.Located) :
    (s.update v.1 v.2).ListsOnly versions := by
  intro uri name hname
  rw [listing_update, listing_removeUri] at hname
  rcases List.mem_append.1 hname with hbefore | hdeclared
  · split at hbefore
    · cases hbefore
    · exact h uri name hbefore
  · rcases List.mem_map.1 hdeclared with ⟨d, hd, rfl⟩
    rcases List.mem_filter.1 hd with ⟨hmem, howner⟩
    have huri : v.1 = uri := by simpa [hlocated d hmem] using howner
    exact ⟨v, hv, huri, List.mem_map.2 ⟨d, hmem, rfl⟩⟩

/-! ## Many documents -/

/-- Documents that stay as they are can be indexed in any order and again: no name is lost on the
way. -/
theorem grows_foldl_update {versions rest : List Version} (hsteady : Steady versions)
    (hlocated : ∀ v ∈ versions, v.Located) (hrest : rest ⊆ versions) {s : Store}
    (hs : s.ListsOnly versions) :
    Grows s (rest.foldl (fun s v => s.update v.1 v.2) s) := by
  induction rest generalizing s with
  | nil => exact Grows.refl s
  | cons v rest ih =>
      have hv : v ∈ versions := hrest List.mem_cons_self
      -- what is listed for the document was declared by an equal version of it
      have hagain : ∀ name ∈ s.listing v.1, name ∈ v.2.map Definition.qualifiedName := by
        intro name hname
        rcases hs v.1 name hname with ⟨v', hv', huri, hdeclared⟩
        rwa [hsteady v' hv' v hv huri] at hdeclared
      have hstep : Grows s (s.update v.1 v.2) := grows_update hagain
      have hlists := listsOnly_update hs hv (hlocated v hv)
      exact hstep.trans (ih (fun v' hv' => hrest (List.mem_cons_of_mem _ hv')) hlists)

theorem listsOnly_foldl_update {versions rest : List Version}
    (hlocated : ∀ v ∈ versions, v.Located) (hrest : rest ⊆ versions) {s : Store}
    (hs : s.ListsOnly versions) :
    (rest.foldl (fun s v => s.update v.1 v.2) s).ListsOnly versions := by
  refine List.foldlRecOn rest _ (motive := fun s : Store => s.ListsOnly versions) hs ?_
  intro s' hs' v hv
  exact listsOnly_update hs' (hrest hv) (hlocated v (hrest hv))

/-- The library is on no list. -/
theorem listsOnly_addAll (library : List Definition) (versions : List Version) :
    (addAll {} library).ListsOnly versions := by
  intro uri name hname
  have hnothing : (addAll {} library).listing uri = [] := by
    unfold listing
    rw [listings_addAll]
    rfl
  rw [hnothing] at hname
  cases hname

end Store

namespace Workspace

open Store (Grows Version Steady)

/-! ## Texts -/

/-- A document with what it declares. -/
def versionOf (d : Document) : Version :=
  (d.uri, d.definitions)

theorem store_foldl_index (documents : List Document) (w : Workspace) :
    (documents.foldl index w).store =
      (documents.map versionOf).foldl (fun s v => s.update v.1 v.2) w.store := by
  induction documents generalizing w with
  | nil => rfl
  | cons d documents ih => exact ih (w.index d)

/-- The events that index some texts. -/
def indexing (sources : List (String × String)) : List Event :=
  sources.map fun source => .indexed source.1 source.2

/-- What some texts declare. -/
def versions (read : Reader) (sources : List (String × String)) : List Version :=
  sources.map fun source => versionOf (documentOf read source.1 source.2)

theorem store_indexing (read : Reader) (library : List Definition)
    (sources : List (String × String)) :
    (run read library (indexing sources)).store =
      (versions read sources).foldl (fun s v => s.update v.1 v.2) (Store.addAll {} library) := by
  let documents := sources.map fun source => documentOf read source.1 source.2
  have hrun : run read library (indexing sources) = documents.foldl index (seed {} library) := by
    unfold run indexing
    rw [List.foldl_map, List.foldl_map]
    rfl
  have hversions : versions read sources = documents.map versionOf := by
    simp [versions, documents, Function.comp_def]
  rw [hrun, store_foldl_index, hversions]
  rfl

/-- Equal URIs carry the same text. -/
def SameTexts (sources : List (String × String)) : Prop :=
  ∀ source ∈ sources, ∀ source' ∈ sources, source.1 = source'.1 → source.2 = source'.2

theorem steady_versions {sources : List (String × String)} (h : SameTexts sources)
    (read : Reader) : Steady (versions read sources) := by
  intro v hv v' hv' huri
  rcases List.mem_map.1 hv with ⟨source, hsource, rfl⟩
  rcases List.mem_map.1 hv' with ⟨source', hsource', rfl⟩
  have huri' : source.1 = source'.1 := huri
  simp only [huri', h source hsource source' hsource' huri']

theorem located_versions (read : Reader) (sources : List (String × String)) :
    ∀ v ∈ versions read sources, v.Located := by
  intro v hv d hd
  rcases List.mem_map.1 hv with ⟨source, _, rfl⟩
  exact Document.uri_of_mem_definitions hd

/-- Whatever was indexed before, indexing more texts loses no name. -/
theorem grows_indexing (read : Reader) (library : List Definition)
    {earlier later : List (String × String)} (h : SameTexts (earlier ++ later)) :
    Grows (run read library (indexing earlier)).store
      (run read library (indexing (earlier ++ later))).store := by
  have hsplit : versions read (earlier ++ later) = versions read earlier ++ versions read later :=
    List.map_append
  have hlocated := located_versions read (earlier ++ later)
  rw [store_indexing, store_indexing, hsplit, List.foldl_append]
  rw [hsplit] at hlocated
  apply Store.grows_foldl_update (hsplit ▸ steady_versions h read) hlocated
  · exact List.subset_append_right _ _
  · exact Store.listsOnly_foldl_update hlocated (List.subset_append_left _ _)
      (Store.listsOnly_addAll library _)

/-- The names of a store with a library are distinct, also after texts were indexed. -/
theorem keys_nodup_run (read : Reader) (library : List Definition) (events : List Event) :
    (run read library events).store.entries.keys.Nodup := by
  refine List.foldlRecOn events (step read)
    (motive := fun w => w.store.entries.keys.Nodup) ?_ ?_
  · exact Store.keys_nodup_addAll library List.nodup_nil
  · intro w hw e _
    rw [store_step]
    cases e.reindexes? with
    | none => exact hw
    | some uri => exact Store.keys_nodup_update uri _ hw

end Workspace

namespace CommandLine

open Store (Grows)

/-! ## Files -/

variable {env : Environment} {fs : Files}

/-- A file is indexed under the URI of its place. -/
theorem exists_source_of_documentAt {place : List String} {d : Document}
    (h : documentAt fs place = .ok d) :
    place ∈ fs.files.keys ∧ ∃ text root, d = .ofSource (Text.fileUri place) text root := by
  unfold documentAt at h
  cases hfile : fs.files.find? place with
  | none => simp [hfile, bind, Except.bind] at h
  | some f =>
      cases htext : f.text with
      | error e => simp [hfile, htext, orFail, bind, Except.bind] at h
      | ok text =>
          simp only [hfile, htext, orFail, bind, Except.bind, Option.elim_some,
            Except.ok.injEq] at h
          exact ⟨Assoc.mem_keys_of_find? hfile, text, f.root, h.symm⟩

/-- The documents at some places, indexed one after the other. -/
theorem exists_documents_of_foldlM {places : List (List String)} {w w' : Workspace}
    (h : places.foldlM (fun w place => (documentAt fs place).map w.index) w = .ok w') :
    ∃ documents : List Document, (∀ d ∈ documents, ∃ place, documentAt fs place = .ok d) ∧
      w' = documents.foldl Workspace.index w := by
  induction places generalizing w with
  | nil =>
      cases h
      exact ⟨[], by simp, rfl⟩
  | cons place places ih =>
      rw [List.foldlM_cons] at h
      cases hdocument : documentAt fs place with
      | error e => simp [hdocument, Except.map, bind, Except.bind] at h
      | ok d =>
          rw [hdocument] at h
          rcases ih h with ⟨documents, hplaces, rfl⟩
          refine ⟨d :: documents, ?_, rfl⟩
          intro d' hd'
          rcases List.mem_cons.1 hd' with rfl | hrest
          · exact ⟨place, hdocument⟩
          · exact hplaces d' hrest

theorem exists_documents_of_indexAll {w w' : Workspace} {paths : List String} {count : Nat}
    (h : indexAll env fs w paths = .ok (w', count)) :
    ∃ documents : List Document, (∀ d ∈ documents, ∃ place, documentAt fs place = .ok d) ∧
      w' = documents.foldl Workspace.index w := by
  unfold indexAll at h
  cases hfold : (paths.flatMap (fs.sources env.directory)).foldlM
      (fun w place => (documentAt fs place).map w.index) w with
  | error e => simp [hfold, bind, Except.bind] at h
  | ok w'' =>
      simp only [hfold, bind, Except.bind, Except.ok.injEq, Prod.mk.injEq] at h
      rw [← h.1]
      exact exists_documents_of_foldlM hfold

theorem exists_library_of_loadWorkspace {builtins : Builtins} {w : Workspace}
    (h : loadWorkspace env fs builtins = .ok w) : ∃ library, w = Workspace.seed {} library := by
  unfold loadWorkspace at h
  cases hpath : libraryPath? env builtins with
  | none =>
      rw [hpath] at h
      cases h
      exact ⟨[], rfl⟩
  | some path =>
      cases hload : orFail .builtins (loadLibrary env fs path) with
      | error e => simp [hpath, hload, Except.map] at h
      | ok library =>
          simp only [hpath, hload, Except.map, Except.ok.injEq] at h
          exact ⟨library, h.symm⟩

/-- Files with the same URI are the same file, which reads the same every time. -/
theorem steady_documents {documents : List Document} (hroot : [] ∉ fs.files.keys)
    (h : ∀ d ∈ documents, ∃ place, documentAt fs place = .ok d) :
    Store.Steady (documents.map Workspace.versionOf) := by
  intro v hv v' hv' huri
  rcases List.mem_map.1 hv with ⟨d, hd, rfl⟩
  rcases List.mem_map.1 hv' with ⟨d', hd', rfl⟩
  rcases h d hd with ⟨place, hplace⟩
  rcases h d' hd' with ⟨place', hplace'⟩
  rcases exists_source_of_documentAt hplace with ⟨hmem, _, _, rfl⟩
  rcases exists_source_of_documentAt hplace' with ⟨hmem', _, _, rfl⟩
  have hne : place ≠ [] := fun heq => hroot (heq ▸ hmem)
  have hne' : place' ≠ [] := fun heq => hroot (heq ▸ hmem')
  cases Text.fileUri_inj hne hne' huri
  rw [Except.ok.inj (hplace.symm.trans hplace')]

theorem located_documents {documents : List Document}
    (h : ∀ d ∈ documents, ∃ place, documentAt fs place = .ok d) :
    ∀ v ∈ documents.map Workspace.versionOf, v.Located := by
  intro v hv e he
  rcases List.mem_map.1 hv with ⟨d, hd, rfl⟩
  rcases h d hd with ⟨place, hplace⟩
  rcases exists_source_of_documentAt hplace with ⟨_, _, _, rfl⟩
  exact Document.uri_of_mem_definitions he

/-- No name is lost while texts are indexed on top of a library, in whatever order and however
often, as long as equal URIs carry the same text; so there are never fewer definitions than before.
The files of a command are such texts: what a command counts after it indexed them is never less
than what it counted before. -/
theorem indexing_keeps_names :
    (∀ (read : Workspace.Reader) (library : List Definition)
        (earlier later : List (String × String)),
      Workspace.SameTexts (earlier ++ later) →
      let before := Workspace.run read library (Workspace.indexing earlier)
      let after := Workspace.run read library (Workspace.indexing (earlier ++ later))
      (∀ name, (before.store.find? name).isSome → (after.store.find? name).isSome) ∧
        before.store.size ≤ after.store.size) ∧
    ∀ (env : Environment) (fs : Files) (builtins : Builtins) (paths : List String)
        (before after : Workspace) (count : Nat),
      [] ∉ fs.files.keys → loadWorkspace env fs builtins = .ok before →
      indexAll env fs before paths = .ok (after, count) →
      (∀ name, (before.store.find? name).isSome → (after.store.find? name).isSome) ∧
        before.store.size ≤ after.store.size := by
  refine ⟨?_, ?_⟩
  · intro read library earlier later hsame
    have hgrows := Workspace.grows_indexing read library hsame
    exact ⟨hgrows, hgrows.size_le (Workspace.keys_nodup_run read library _)⟩
  · intro env fs builtins paths before after count hroot hload hindex
    rcases exists_library_of_loadWorkspace hload with ⟨library, rfl⟩
    rcases exists_documents_of_indexAll hindex with ⟨documents, hplaces, rfl⟩
    have hgrows : Grows (Store.addAll {} library)
        (documents.foldl Workspace.index (Workspace.seed {} library)).store := by
      rw [Workspace.store_foldl_index]
      exact Store.grows_foldl_update (steady_documents hroot hplaces) (located_documents hplaces)
        (List.Subset.refl _) (Store.listsOnly_addAll library _)
    exact ⟨hgrows, hgrows.size_le (Store.keys_nodup_addAll library List.nodup_nil)⟩

/-! ## Files that are listed twice -/

/-- The definitions of a library that a file reopens. -/
def reopenedLibrary : List Definition :=
  Workspace.shortLibrary "String"

/-- A directory with a source file and the snapshot of a library. -/
def reopeningFiles : Files :=
  { files := [
      (["a.rb"], ⟨utf8 "class String\nend\n", some (Workspace.classTree 6)⟩),
      (["core"], { bytes := Snapshot.dump 0 reopenedLibrary })] }

/-- A program that is run in the root directory. -/
def rootEnvironment : Environment where
  directory := []
  config := .ofHome "home" none
  now := 0

theorem loadWorkspace_reopeningFiles : loadWorkspace rootEnvironment reopeningFiles
    (.snapshot "core") = .ok (Workspace.seed {} reopenedLibrary) := by
  have hpieces : Path.pieces "core" = ["core"] := by decide +kernel
  have hlocate : reopeningFiles.locate [] "core" =
      .ok (["core"], .file { bytes := Snapshot.dump 0 reopenedLibrary }) := by
    simp [Files.locate, hpieces, Files.origin, Files.walk, Files.checkDirectory, Files.entry?,
      reopeningFiles, Assoc.find?, bind, Except.bind]
  have hunpack : Compression.stored.unpack (Snapshot.dump 0 reopenedLibrary) =
      .ok (.current 0, reopenedLibrary) :=
    (Snapshot.unpack_of_decompress (Compression.lossless_stored _)).trans
      (Snapshot.load_document 0 (by decide))
  simp [loadWorkspace, libraryPath?, loadLibrary, rootEnvironment, hlocate, hunpack, orFail,
    Except.map]

theorem documentAt_reopeningFiles : documentAt reopeningFiles ["a.rb"] =
    .ok (.ofSource "file:///a.rb" "class String\nend\n" (some (Workspace.classTree 6))) := by
  have huri : Text.fileUri ["a.rb"] = "file:///a.rb" := by decide +kernel
  unfold documentAt
  rw [huri]
  simp [reopeningFiles, Assoc.find?, File.text, ofUtf8?_utf8, orFail, bind, Except.bind]

theorem exists_indexAll_reopeningFiles (w : Workspace) :
    ∃ after, indexAll rootEnvironment reopeningFiles w ["a.rb", "a.rb"] = .ok (after, 2) := by
  have hsources : reopeningFiles.sources [] "a.rb" = [["a.rb"]] := by decide +kernel
  unfold indexAll
  simp [rootEnvironment, hsources, documentAt_reopeningFiles, Except.map, bind, Except.bind, pure,
    Except.pure]

/-- A library class that is reopened in two files, one of them indexed again, is still there; and so
it is when a command loads the library and is given such a file twice. -/
theorem reopened_keeps_names :
    Workspace.SameTexts
        [ ("file:///a.rb", "class String\nend\n"), ("file:///b.rb", "class String\nend\n"),
          ("file:///a.rb", "class String\nend\n") ] ∧
      ((Workspace.run Workspace.shortReader (Workspace.shortLibrary "String")
        (Workspace.indexing
          [ ("file:///a.rb", "class String\nend\n"), ("file:///b.rb", "class String\nend\n"),
            ("file:///a.rb", "class String\nend\n") ])).store.find? "String").isSome ∧
      [] ∉ reopeningFiles.files.keys ∧
      loadWorkspace rootEnvironment reopeningFiles (.snapshot "core") =
        .ok (Workspace.seed {} reopenedLibrary) ∧
      ∃ after, indexAll rootEnvironment reopeningFiles (Workspace.seed {} reopenedLibrary)
          ["a.rb", "a.rb"] = .ok (after, 2) ∧
        (after.store.find? "String").isSome ∧ 1 ≤ after.store.size := by
  rcases indexing_keeps_names with ⟨htexts, hfiles⟩
  have hsame : Workspace.SameTexts ([] ++
      [ ("file:///a.rb", "class String\nend\n"), ("file:///b.rb", "class String\nend\n"),
        ("file:///a.rb", "class String\nend\n") ]) := by
    unfold Workspace.SameTexts
    decide
  have hstring := (htexts Workspace.shortReader (Workspace.shortLibrary "String") [] _ hsame).1
    "String" (by decide)
  have hroot : [] ∉ reopeningFiles.files.keys := by simp [reopeningFiles, Assoc.keys]
  rcases exists_indexAll_reopeningFiles (Workspace.seed {} reopenedLibrary) with ⟨after, hafter⟩
  rcases hfiles rootEnvironment reopeningFiles (.snapshot "core") _ _ after 2 hroot
    loadWorkspace_reopeningFiles hafter with ⟨hkept, hsize⟩
  have hbefore : (Workspace.seed {} reopenedLibrary).store.size = 1 := by decide
  exact ⟨hsame, hstring, hroot, loadWorkspace_reopeningFiles, after, hafter,
    hkept "String" (by decide), hbefore ▸ hsize⟩

end CommandLine
end RubyIndex
