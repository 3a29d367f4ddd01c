/-!
# File paths

Paths are texts with `/` between segments.  Empty segments and single dots carry no meaning.

* `segments`, `fileName?`, `extension?` take a path apart;
* `join` puts two together, and an absolute second path replaces the first;
* `isSourcePath` tells the files of Ruby programs by their extension.
-/

namespace RubyIndex
namespace Path

/-- The segments between the slashes. -/
def pieces (path : String) : List String :=
  (path.toList.splitOn '/').map String.ofList

/-- The segments that carry a meaning. -/
def segments (path : String) : List String :=
  (pieces path).filter fun s => s ≠ "" ∧ s ≠ "."

def isAbsolute (path : String) : Bool :=
  path.toList.head? = some '/'

/-- The last segment, if it is a name. -/
def fileName? (path : String) : Option String :=
  (segments path).getLast?.filter fun s => s ≠ ".."

/-- What follows the last dot of the file name, unless the dot comes first. -/
def extension? (path : String) : Option String := do
  let name ← fileName? path
  let reversed := name.toList.reverse
  match reversed.span (· ≠ '.') with
  | (_, []) => none
  | (_, [_]) => none
  | (after, _) => some (String.ofList after.reverse)

/-- Where `name` lies when it is given relative to `base`. -/
def join (base name : String) : String :=
  if isAbsolute name then name
  else if base = "" ∨ base.toList.getLast? = some '/' then base ++ name
  else base ++ "/" ++ name

/-- The extensions of Ruby sources. -/
def sourceExtensions : List String :=
  ["rb", "rake", "gemspec", "ru"]

def isSourcePath (path : String) : Bool :=
  (extension? path).elim false fun e => sourceExtensions.contains e

end Path

/-! ## Locations of the program's own files -/

/-- Where the program keeps its files. -/
structure Config where
  home : String
  snapshotPath : String
  logDirectory : String
  deriving DecidableEq, Repr, Inhabited

namespace Config

/-- The files below a home directory; the snapshot may lie elsewhere. -/
def ofHome (home : String) (snapshot : Option String) : Config where
  home := home
  snapshotPath := snapshot.getD (Path.join home "builtin.snapshot")
  logDirectory := Path.join home "logs"

def withSnapshot (c : Config) (path : String) : Config :=
  { c with snapshotPath := path }

end Config
end RubyIndex
