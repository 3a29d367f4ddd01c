/-!
# Local scopes

While a text is lowered, the names of local variables stand in frames.  A block sees the names of
the frame it stands in; a method, a class and the like starts from nothing.

* `Frame`, `Scopes`;
* `Scopes.declare`, `Scopes.isLocal`, `Scopes.push`, `Scopes.pop`.
-/

namespace RubyIndex
namespace Lowering

structure Frame where
  locals : List String
  /-- Whether the names of the next frame outward are visible too. -/
  seesOuter : Bool
  deriving DecidableEq, Repr, Inhabited

/-- One or more frames. -/
structure Scopes where
  inner : Frame
  /-- The frames around the innermost one, from the inside out. -/
  outer : List Frame
  deriving DecidableEq, Repr, Inhabited

namespace Scopes

/-- The frame of a whole text. -/
def initial : Scopes :=
  ⟨⟨[], false⟩, []⟩

/-- All frames, from the inside out. -/
def frames (s : Scopes) : List Frame :=
  s.inner :: s.outer

/-- Opens a frame. -/
def push (seesOuter : Bool) (s : Scopes) : Scopes :=
  ⟨⟨[], seesOuter⟩, s.frames⟩

/-- Closes the innermost frame, unless it is the only one. -/
def pop (s : Scopes) : Scopes :=
  match s.outer with
  | [] => s
  | frame :: rest => ⟨frame, rest⟩

/-- Makes a name a local variable of the innermost frame. -/
def declare (name : String) (s : Scopes) : Scopes :=
  if name ∈ s.inner.locals then s
  else { s with inner := { s.inner with locals := name :: s.inner.locals } }

/-- Whether a name is visible from the first of some frames. -/
def visible (name : String) : List Frame → Bool
  | [] => false
  | frame :: rest => frame.locals.contains name || (frame.seesOuter && visible name rest)

/-- Whether a name is a local variable here. -/
def isLocal (name : String) (s : Scopes) : Bool :=
  visible name s.frames

@[simp] theorem pop_push (seesOuter : Bool) (s : Scopes) : (s.push seesOuter).pop = s := rfl

@[simp] theorem outer_declare (name : String) (s : Scopes) :
    (s.declare name).outer = s.outer := by
  unfold declare
  split <;> rfl

theorem mem_locals_declare (name other : String) (s : Scopes) :
    other ∈ (s.declare name).inner.locals ↔ other = name ∨ other ∈ s.inner.locals := by
  unfold declare
  split
  · rename_i h
    constructor
    · exact Or.inr
    · rintro (rfl | h') <;> assumption
  · simp

end Scopes
end Lowering
end RubyIndex
