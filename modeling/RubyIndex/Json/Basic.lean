import RubyIndex.Datum

/-!
# JSON values

Objects keep their members in order.  A number is either an integer or a decimal literal, which
is kept as written: `1.0`, `1e0` and `-0` are decimals.

* `Json`, a value;
* `Json.toDatum`, a value as self-describing data, for a chosen marking of the natural numbers.
-/

namespace RubyIndex

inductive Json
  | null
  | bool (value : Bool)
  | integer (value : Int)
  | decimal (literal : String)
  | string (value : String)
  /-- A string, or an object with the name of a member, that holds half of a surrogate pair. -/
  | garbled
  | array (items : List Json)
  | object (members : List (String × Json))
  deriving Inhabited

namespace Json

/-! ## Building and taking apart -/

def natural (n : Nat) : Json :=
  .integer (Int.ofNat n)

/-- Null for an absent value. -/
def ofOption {α : Type} (write : α → Json) : Option α → Json
  | none => .null
  | some a => write a

def ofList {α : Type} (write : α → Json) (items : List α) : Json :=
  .array (items.map write)

def strings (items : List String) : Json :=
  ofList .string items

/-- The value of a member, null when there is none. -/
def member (name : String) : Json → Json
  | object members => (members.find? fun m => m.1 == name).elim .null (·.2)
  | _ => .null

def string? : Json → Option String
  | string s => some s
  | _ => none

def natural? : Json → Option Nat
  | integer (.ofNat n) => some n
  | _ => none

def items : Json → List Json
  | array items => items
  | _ => []

/-- Whether the value is the truth value true. -/
def isTrue : Json → Bool
  | bool b => b
  | _ => false

/-! ## Self-describing data -/

mutual

/-- The value as data, each natural number marked by `mark`. -/
def toDatum (mark : Nat → Datum) : Json → Datum
  | null => .nil
  | bool b => .bool b
  | integer (.ofNat n) => mark n
  | integer (.negSucc n) => .signed (.negSucc n)
  | decimal _ => .real []
  | string s => .text s
  | garbled => .garbled
  | array items => .list (toData mark items)
  | object members => .map (toEntries mark members)

def toData (mark : Nat → Datum) : List Json → List Datum
  | [] => []
  | item :: items => toDatum mark item :: toData mark items

def toEntries (mark : Nat → Datum) : List (String × Json) → List (Datum × Datum)
  | [] => []
  | (name, value) :: members => (.text name, toDatum mark value) :: toEntries mark members

end

end Json
end RubyIndex
