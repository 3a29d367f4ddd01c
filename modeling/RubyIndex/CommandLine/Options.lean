import RubyIndex.Position

/-!
# Command lines

A command line names a command and gives it options and operands.  An option with a value is
written `--name value` or `--name=value`, one with a letter also `-nvalue`; `--` ends the
options.  A command line is refused when anything in it is unknown, missing, repeated or
malformed.

* `OptionSpec`, `Arguments.parse?`, the options and operands of a command;
* `Command`, `Command.parse?`.
-/

namespace RubyIndex

/-! ## Options and operands -/

/-- An option that a command knows. -/
structure OptionSpec where
  name : String
  letter : Option Char := none
  /-- Whether a value follows. -/
  valued : Bool := false
  /-- Whether the option may be given more than once. -/
  repeated : Bool := false
  deriving DecidableEq, Repr

/-- What was given, in order; the value of an option without one is empty. -/
structure Arguments where
  options : List (String × String) := []
  operands : List String := []
  deriving DecidableEq, Repr

namespace Arguments

/-- The values of an option. -/
def values (a : Arguments) (name : String) : List String :=
  (a.options.filter fun entry => entry.1 == name).map (·.2)

def value? (a : Arguments) (name : String) : Option String :=
  (a.values name).head?

def has (a : Arguments) (name : String) : Bool :=
  a.options.any fun entry => entry.1 == name

/-- Adds an option, unless it was given before and may not be repeated. -/
def addOption? (a : Arguments) (spec : OptionSpec) (value : String) : Option Arguments :=
  if !spec.repeated && a.has spec.name then none
  else some { a with options := a.options ++ [(spec.name, value)] }

/-- What one word of a command line is. -/
inductive Word
  /-- The mark that ends the options. -/
  | mark
  /-- An option, with the value written in the same word. -/
  | option (spec : OptionSpec) (attached : Option String)
  | unknown
  | operand (value : String)

/-- A text behind an equals sign. -/
def afterEquals : List Char → List Char
  | '=' :: rest => rest
  | text => text

/-- Reads a word among the known options. -/
def Word.read (specs : List OptionSpec) (word : String) : Word :=
  match word.toList with
  | ['-', '-'] => .mark
  | '-' :: '-' :: rest =>
      let name := String.ofList (rest.takeWhile (· != '='))
      let attached :=
        match rest.dropWhile (· != '=') with
        | _ :: value => some (String.ofList value)
        | [] => none
      match specs.find? fun spec => spec.name == name with
      | some spec => .option spec attached
      | none => .unknown
  | '-' :: letter :: rest =>
      match specs.find? fun spec => spec.letter == some letter with
      | some spec =>
          .option spec (if rest.isEmpty then none else some (String.ofList (afterEquals rest)))
      | none => .unknown
  | _ => .operand word

/-- Whether a word can be the value of the option before it. -/
def isValue (word : String) : Bool :=
  match word.toList with
  | '-' :: _ :: _ => false
  | _ => true

/-- Reads words behind what was given already. -/
def parseFrom (specs : List OptionSpec) : Arguments → List String → Option Arguments
  | given, [] => some given
  | given, word :: rest =>
      match Word.read specs word with
      | .mark => some { given with operands := given.operands ++ rest }
      | .unknown => none
      | .operand value => parseFrom specs { given with operands := given.operands ++ [value] } rest
      | .option spec attached =>
          match spec.valued, attached, rest with
          | false, none, rest => (given.addOption? spec "").bind (parseFrom specs · rest)
          | false, some _, _ => none
          | true, some value, rest => (given.addOption? spec value).bind (parseFrom specs · rest)
          | true, none, value :: rest =>
              if isValue value then (given.addOption? spec value).bind (parseFrom specs · rest)
              else none
          | true, none, [] => none

/-- The options and operands in the words of a command line. -/
def parse? (specs : List OptionSpec) (words : List String) : Option Arguments :=
  parseFrom specs {} words

end Arguments

/-! ## Values -/

/-- A path, which must not be empty. -/
def pathValue? (value : String) : Option String :=
  if value = "" then none else some value

/-- Decimal digits as a number. -/
def digitsValue? (digits : List Char) : Option Nat :=
  if digits.isEmpty ∨ digits.any (fun c => !c.isDigit) then none
  else some (digits.foldl (fun n c => 10 * n + (c.toNat - '0'.toNat)) 0)

/-- A number of 32 bits; a sign is allowed. -/
def wordValue? (value : String) : Option UInt32 :=
  let number :=
    match value.toList with
    | '+' :: digits => digitsValue? digits
    | '-' :: digits => (digitsValue? digits).filter fun n => n = 0
    | digits => digitsValue? digits
  (number.filter fun n => n < UInt32.size).map UInt32.ofNat

/-! ## Commands -/

/-- Where the built-in library comes from. -/
inductive Builtins
  | configured
  | snapshot (path : String)
  | none
  deriving DecidableEq, Repr

inductive Command
  /-- Lists the definitions of files. -/
  | index (paths : List String) (builtins : Builtins) (all : Bool)
  /-- Shows what is known of the expression at a position. -/
  | inspect (file : String) (position : Position) (extra : List String) (builtins : Builtins)
  /-- Lists the ancestors of a class or module. -/
  | ancestors (paths : List String) (name : String) (builtins : Builtins)
  /-- Makes a snapshot of definitions. -/
  | buildSnapshot (input output : String)
  /-- Sums up a snapshot. -/
  | inspectSnapshot (file : String)
  deriving DecidableEq, Repr

namespace Command

/-- The options that choose the built-in library. -/
def builtinOptions : List OptionSpec :=
  [{ name := "snapshot", valued := true }, { name := "no-builtins" }]

/-- The built-in library that options choose; they may not contradict each other. -/
def builtins? (a : Arguments) : Option Builtins :=
  match a.value? "snapshot", a.has "no-builtins" with
  | some _, true => none
  | some path, false => (pathValue? path).map .snapshot
  | none, true => some .none
  | none, false => some .configured

def index? (words : List String) : Option Command := do
  let a ← Arguments.parse? ({ name := "all" } :: builtinOptions) words
  let paths ← a.operands.mapM pathValue?
  let builtins ← builtins? a
  if paths.isEmpty then none else some (.index paths builtins (a.has "all"))

def inspect? (words : List String) : Option Command := do
  let a ← Arguments.parse? ({ name := "with", valued := true, repeated := true } :: builtinOptions)
    words
  let extra ← (a.values "with").mapM pathValue?
  let builtins ← builtins? a
  match a.operands with
  | [file, line, column] => do
      let file ← pathValue? file
      let line ← wordValue? line
      let column ← wordValue? column
      some (.inspect file ⟨line, column⟩ extra builtins)
  | _ => none

def ancestors? (words : List String) : Option Command := do
  let a ← Arguments.parse? ({ name := "name", valued := true } :: builtinOptions) words
  let paths ← a.operands.mapM pathValue?
  let name ← a.value? "name"
  let builtins ← builtins? a
  some (.ancestors paths name builtins)

def buildSnapshot? (words : List String) : Option Command := do
  let a ← Arguments.parse? [{ name := "output", letter := some 'o', valued := true }] words
  let output ← (a.value? "output").bind pathValue?
  match a.operands with
  | [input] => (pathValue? input).map (.buildSnapshot · output)
  | _ => none

def inspectSnapshot? (words : List String) : Option Command := do
  let a ← Arguments.parse? [] words
  match a.operands with
  | [file] => (pathValue? file).map .inspectSnapshot
  | _ => none

/-- The command of a command line, unless it is refused. -/
def parse? : List String → Option Command
  | "index" :: words => index? words
  | "inspect" :: words => inspect? words
  | "ancestors" :: words => ancestors? words
  | "snapshot" :: "build" :: words => buildSnapshot? words
  | "snapshot" :: "inspect" :: words => inspectSnapshot? words
  | _ => none

end Command
end RubyIndex
