import RubyIndex.Bytes
import RubyIndex.Concrete.Node
import RubyIndex.Path
import RubyIndex.Store.Assoc

/-!
# File trees

The files a command works on, by the segments of their absolute paths.  A source file comes with the
concrete tree of its text.

* `Files`, `Files.entry?`;
* `Files.locate`, the file or directory under a path that is given relative to a directory;
* `File.text`, `Files.read`;
* `Files.makeDirectories`, `Files.write`;
* `Files.sources`, the source files under a path.
-/

namespace RubyIndex

structure File where
  bytes : List UInt8
  /-- What the text was read as, for a source without syntax errors. -/
  root : Option Concrete.Node := none

/-- What stands under a path. -/
inductive Entry
  | file (contents : File)
  | directory

/-- Why a file cannot be used. -/
inductive FileError
  | notFound
  | exists
  | notDirectory
  | isDirectory
  | invalidText
  deriving DecidableEq, Repr

def FileError.message : FileError → String
  | notFound => "No such file or directory (os error 2)"
  | «exists» => "File exists (os error 17)"
  | notDirectory => "Not a directory (os error 20)"
  | isDirectory => "Is a directory (os error 21)"
  | invalidText => "stream did not contain valid UTF-8"

/-- The text of a file. -/
def File.text (f : File) : Except FileError String :=
  (ofUtf8? f.bytes).elim (.error .invalidText) .ok

structure Files where
  files : Assoc (List String) File := []
  /-- The directories other than the root. -/
  directories : List (List String) := []

namespace Files

/-! ## Finding -/

def entry? (fs : Files) (path : List String) : Option Entry :=
  match fs.files.find? path with
  | some f => some (.file f)
  | none => if path = [] ∨ path ∈ fs.directories then some .directory else none

/-- Whether a path leads to a directory, or why not. -/
def checkDirectory (fs : Files) (path : List String) : Except FileError Unit :=
  match fs.entry? path with
  | none => .error .notFound
  | some (.file _) => .error .notDirectory
  | some .directory => .ok ()

/-- Follows the pieces of a path from a place; each must start from a directory. -/
def walk (fs : Files) (place : List String) : List String → Except FileError (List String)
  | [] => .ok place
  | piece :: rest =>
      match fs.checkDirectory place with
      | .error e => .error e
      | .ok () =>
          if piece = "" ∨ piece = "." then fs.walk place rest
          else if piece = ".." then fs.walk place.dropLast rest
          else fs.walk (place ++ [piece]) rest

/-- Where paths start. -/
def origin (directory : List String) (path : String) : List String :=
  if Path.isAbsolute path then [] else directory

/-- What stands under a path, and its place. -/
def locate (fs : Files) (directory : List String) (path : String) :
    Except FileError (List String × Entry) := do
  if path = "" then .error .notFound
  let place ← fs.walk (origin directory path) (Path.pieces path)
  match fs.entry? place with
  | some entry => .ok (place, entry)
  | none => .error .notFound

/-! ## Reading -/

/-- A file with its place. -/
def read (fs : Files) (directory : List String) (path : String) :
    Except FileError (List String × File) := do
  match ← fs.locate directory path with
  | (place, .file f) => .ok (place, f)
  | (_, .directory) => .error .isDirectory

/-! ## Writing -/

/-- Makes the directories that lead from a place, as far as there are no files in their stead.  One
that was missing makes the others be tried one by one, so that a file among them counts as itself
and not as a directory above; `made` tells whether one was. -/
def makeDirectories (fs : Files) (made : Bool) (place : List String) :
    List String → Files × Except FileError Unit
  | [] => (fs, .ok ())
  | piece :: rest =>
      if piece = ".." then fs.makeDirectories made place.dropLast rest
      else
        let next := place ++ [piece]
        match fs.entry? next with
        | some .directory => fs.makeDirectories made next rest
        | some (.file _) =>
            (fs, .error (if made || rest.isEmpty then .exists else .notDirectory))
        | none => { fs with directories := fs.directories ++ [next] }.makeDirectories true next rest

/-- Where a file under a path is put, or why it cannot be.  Dots, and a slash at the end, stand for
a directory. -/
def target (fs : Files) (start : List String) (path : String) : Except FileError (List String) :=
  match (Path.pieces path).reverse.dropWhile (· = "") with
  | [] => .error (if Path.isAbsolute path then .isDirectory else .notFound)
  | name :: above => do
      let parent ← fs.walk start above.reverse
      fs.checkDirectory parent
      if name = "." ∨ name = ".." ∨ path.toList.getLast? = some '/' then .error .isDirectory
      match fs.entry? (parent ++ [name]) with
      | some .directory => .error .isDirectory
      | _ => .ok (parent ++ [name])

/-- Writes a file under a path.  The directories above it are made first, and stay when the file
cannot be written. -/
def write (fs : Files) (directory : List String) (path : String) (f : File) :
    Files × Except FileError Unit :=
  let start := origin directory path
  match fs.makeDirectories false start (Path.segments path).dropLast with
  | (fs, .error e) => (fs, .error e)
  | (fs, .ok ()) =>
      match fs.target start path with
      | .error e => (fs, .error e)
      | .ok place => ({ fs with files := fs.files.set place f }, .ok ())

/-! ## Sources -/

/-- Whether a name is hidden from listings. -/
def isHidden (name : String) : Bool :=
  name.toList.head? = some '.' && 1 < name.length

/-- The order of a depth-first listing in which the entries of each directory are sorted. -/
def listedBefore : List String → List String → Bool
  | [], _ => true
  | _ :: _, [] => false
  | a :: as, b :: bs => if a = b then listedBefore as bs else decide (a < b)

/-- The segments of a path below a directory. -/
def below? : (directory path : List String) → Option (List String)
  | [], path => some path
  | _ :: _, [] => none
  | d :: directory, p :: path => if d = p then below? directory path else none

/-- Whether a file is a visible source below a directory. -/
def isListed (directory path : List String) : Bool :=
  (below? directory path).elim false fun rest =>
    rest.all (fun name => !isHidden name) && rest.getLast?.elim false Path.isSourcePath

/-- The source files below a directory. -/
def sourcesBelow (fs : Files) (directory : List String) : List (List String) :=
  (fs.files.keys.filter (isListed directory)).mergeSort listedBefore

/-- The files that a path stands for: a file itself, or the sources below a directory with a visible
name.  A path that leads nowhere stands for none. -/
def sources (fs : Files) (directory : List String) (path : String) : List (List String) :=
  match fs.locate directory path with
  | .ok (place, .file _) => [place]
  | .ok (place, .directory) =>
      if isHidden ((Path.fileName? path).getD path) then [] else fs.sourcesBelow place
  | .error _ => []

end Files
end RubyIndex
