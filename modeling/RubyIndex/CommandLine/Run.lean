import RubyIndex.CommandLine.Listing
import RubyIndex.CommandLine.Options
import RubyIndex.Files.Basic
import RubyIndex.Json.Parser
import RubyIndex.Snapshot.Basic
import RubyIndex.Text.Percent
import RubyIndex.Workspace

/-!
# Running commands

A command reads a file tree and prints a text or fails with a message; one command also writes a
file.

* `Failure`, why a command fails;
* `Environment`, what a command knows besides its command line;
* `loadWorkspace`, `indexAll`, a workspace with the built-in library and files;
* `Command.execute`, `CommandLine.run`.
-/

namespace RubyIndex

/-! ## Failures -/

/-- Why a snapshot file cannot be used. -/
inductive LibraryError
  | missing (path : String)
  | file (cause : FileError)
  | snapshot (cause : Snapshot.Error)
  deriving DecidableEq, Repr

def LibraryError.message : LibraryError → String
  | missing path => "snapshot not found at " ++ path
  | file cause => "failed to read snapshot: " ++ cause.message
  | snapshot cause => cause.message

/-- Why a command fails. -/
inductive Failure
  | file (cause : FileError)
  /-- The snapshot a command is about. -/
  | snapshot (cause : LibraryError)
  /-- The built-in library of the workspace. -/
  | builtins (cause : LibraryError)
  | invalidDefinitions
  | notIndexed (name : String)
  | syntaxErrors (path : String)
  deriving DecidableEq, Repr

def Failure.message : Failure → String
  | file cause => cause.message
  | snapshot cause => cause.message
  | builtins cause => "Built-in snapshot error: " ++ cause.message
  | invalidDefinitions => "invalid definitions"
  | notIndexed name => name ++ " is not indexed"
  | syntaxErrors path => path ++ " has syntax errors"

namespace CommandLine

/-- What a command knows besides its command line. -/
structure Environment where
  /-- The directory that paths are relative to. -/
  directory : List String
  config : Config
  /-- Seconds since the Unix epoch. -/
  now : UInt64
  /-- How snapshot files are compressed. -/
  compression : Compression := .stored

/-- Gives a failure its cause. -/
def orFail {ε α : Type} (wrap : ε → Failure) : Except ε α → Except Failure α
  | .ok a => .ok a
  | .error e => .error (wrap e)

/-! ## Workspaces -/

/-- The definitions of a snapshot file. -/
def loadLibrary (env : Environment) (fs : Files) (path : String) :
    Except LibraryError (List Definition) :=
  match fs.locate env.directory path with
  | .error _ => .error (.missing path)
  | .ok (_, .directory) => .error (.file .isDirectory)
  | .ok (_, .file f) =>
      match env.compression.unpack f.bytes with
      | .error e => .error (.snapshot e)
      | .ok (_, definitions) => .ok definitions

/-- The snapshot file a workspace is seeded from. -/
def libraryPath? (env : Environment) : Builtins → Option String
  | .none => none
  | .configured => some env.config.snapshotPath
  | .snapshot path => some path

/-- A workspace with the built-in library. -/
def loadWorkspace (env : Environment) (fs : Files) (builtins : Builtins) :
    Except Failure Workspace :=
  match libraryPath? env builtins with
  | none => .ok {}
  | some path => (orFail .builtins (loadLibrary env fs path)).map (Workspace.seed {})

/-- The document of the file at a place. -/
def documentAt (fs : Files) (place : List String) : Except Failure Document := do
  let f ← (fs.files.find? place).elim (.error (.file .notFound)) .ok
  let text ← orFail .file f.text
  .ok (.ofSource (Text.fileUri place) text f.root)

/-- Indexes all files that paths stand for, and counts them. -/
def indexAll (env : Environment) (fs : Files) (w : Workspace) (paths : List String) :
    Except Failure (Workspace × Nat) := do
  let places := paths.flatMap (fs.sources env.directory)
  let w ← places.foldlM (fun w place => (documentAt fs place).map w.index) w
  .ok (w, places.length)

/-! ## Commands -/

/-- The text of lines. -/
def unlines (lines : List String) : String :=
  String.join (lines.map (· ++ "\n"))

def runIndex (env : Environment) (fs : Files) (paths : List String) (builtins : Builtins)
    (all : Bool) : Except Failure String := do
  let w ← loadWorkspace env fs builtins
  let (w, count) ← indexAll env fs w paths
  let shown := w.store.definitions.filter fun d => all || d.uri.isSome
  .ok (unlines
    (if shown.isEmpty then [s!"No definitions found in {count} file(s)."]
    else [listing shown, s!"{shown.length} definition(s) in {count} file(s)."]))

/-- Candidate types in one line. -/
def typeLine (types : Typing.Types) : String :=
  if types.isEmpty then "(unknown)" else ", ".intercalate types

/-- What is known of a node. -/
def describe (s : Store) (t : Syntax.Tree) (i : Nat) : List String :=
  let range := (t.range? i).map fun r =>
    "Range:          " ++ r.start.display ++ " - " ++ r.stop.display
  let receivers :=
    if (t.kind i).isCall then ["Receiver types: " ++ typeLine (Typing.receiverTypes s t i)] else []
  let targets := Typing.targets s t i
  ["Node:           " ++ (t.kind i).name] ++ range.toList ++ receivers ++
    ["Types:          " ++ typeLine (Typing.typesOf s t i)] ++
    if targets.isEmpty then [] else ["", "Definitions:", listing targets]

def runInspect (env : Environment) (fs : Files) (file : String) (position : Position)
    (extra : List String) (builtins : Builtins) : Except Failure String := do
  let w ← loadWorkspace env fs builtins
  let (w, _) ← indexAll env fs w extra
  let (place, _) ← orFail .file (fs.read env.directory file)
  let document ← documentAt fs place
  let w := w.openDocument document
  if document.failed then .error (.syntaxErrors file)
  match w.nodeAt? document.uri position with
  | some (t, i) => .ok (unlines (describe w.store t i))
  | none => .ok (unlines ["No expression at " ++ position.display ++ "."])

/-- A number to the right of a column of three. -/
def alignRight (n : Nat) : String :=
  let digits := toString n
  String.ofList (List.replicate (3 - digits.length) ' ') ++ digits

def runAncestors (env : Environment) (fs : Files) (paths : List String) (name : String)
    (builtins : Builtins) : Except Failure String := do
  let w ← loadWorkspace env fs builtins
  let (w, _) ← indexAll env fs w paths
  if (w.store.find? name).isNone then .error (.notIndexed name)
  .ok (unlines ((w.store.chainOf name).zipIdx.map fun (d, i) =>
    alignRight (i + 1) ++ ". " ++ d.qualifiedName ++ " (" ++ d.kindName ++ ")"))

/-- The definitions in a JSON file. -/
def readDefinitions (env : Environment) (fs : Files) (path : String) :
    Except Failure (List Definition) := do
  let (_, f) ← orFail .file (fs.read env.directory path)
  let text ← orFail .file f.text
  ((Json.parse? text).bind Definition.listOfJson?).elim (.error .invalidDefinitions) .ok

def runBuildSnapshot (env : Environment) (fs : Files) (input output : String) :
    Except Failure String × Files :=
  match readDefinitions env fs input with
  | .error e => (.error e, fs)
  | .ok definitions =>
      let f : File := { bytes := env.compression.dump env.now definitions }
      let (fs, written) := fs.write env.directory output f
      let report := unlines [s!"Wrote {definitions.length} definition(s) to {output}"]
      ((orFail (fun e => .snapshot (.file e)) written).map fun _ => report, fs)

def runInspectSnapshot (env : Environment) (fs : Files) (file : String) :
    Except Failure String := do
  let (_, f) ← orFail .file (fs.read env.directory file)
  let (header, definitions) ←
    orFail (fun e => .snapshot (.snapshot e)) (env.compression.unpack f.bytes)
  .ok (unlines [
    "Snapshot:    " ++ file,
    s!"Version:     {header.version.toNat}",
    s!"Created at:  {header.createdAt.toNat} (unix seconds)",
    s!"Definitions: {definitions.length}",
    kindListing definitions])

/-- Executes a command: what it prints, and the files after it. -/
def execute (env : Environment) (fs : Files) : Command → Except Failure String × Files
  | .index paths builtins all => (runIndex env fs paths builtins all, fs)
  | .inspect file position extra builtins =>
      (runInspect env fs file position extra builtins, fs)
  | .ancestors paths name builtins => (runAncestors env fs paths name builtins, fs)
  | .buildSnapshot input output => runBuildSnapshot env fs input output
  | .inspectSnapshot file => (runInspectSnapshot env fs file, fs)

/-! ## Runs -/

/-- What a run of the program leaves behind. -/
structure Outcome where
  exitCode : UInt32
  output : String
  diagnostics : String
  files : Files

/-- Shown when a command line is refused. -/
def usage : String :=
  unlines [
    "Usage: index PATH... [--all]",
    "       inspect FILE LINE COLUMN [--with PATH]...",
    "       ancestors [PATH]... --name NAME",
    "       snapshot build JSON --output FILE",
    "       snapshot inspect FILE",
    "The first three take --snapshot FILE or --no-builtins."]

/-- The files once there is a directory for logs. -/
def withLogs (env : Environment) (fs : Files) : Files :=
  let path := env.config.logDirectory
  (fs.makeDirectories false (Files.origin env.directory path) (Path.segments path)).1

/-- Runs the program on a command line. -/
def run (env : Environment) (fs : Files) (words : List String) : Outcome :=
  match Command.parse? words with
  | none => ⟨2, "", usage, fs⟩
  | some command =>
      match execute env (withLogs env fs) command with
      | (.ok output, fs) => ⟨0, output, "", fs⟩
      | (.error failure, fs) => ⟨1, "", "error: " ++ failure.message ++ "\n", fs⟩

end CommandLine
end RubyIndex
