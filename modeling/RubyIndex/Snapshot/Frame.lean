import RubyIndex.Bytes
import RubyIndex.Snapshot.Compression

/-!
# Zstandard frames of stored blocks

The plainest compression in the Zstandard format, which makes nothing smaller: a frame is a header
with the size of the content, followed by blocks that hold the content as it is.  No other blocks
are read.

* `Frame.store`, the frame of some content;
* `Frame.content`, the content of a frame;
* `Compression.stored`, the two of them.
-/

namespace RubyIndex
namespace Frame

/-- What every frame starts with. -/
def magic : List UInt8 :=
  [0x28, 0xB5, 0x2F, 0xFD]

/-- The descriptor of a frame in one segment, whose size is written in eight bytes. -/
def descriptor : UInt8 :=
  0xE0

/-- The size of some content as a frame says it. -/
def sizeField (content : List UInt8) : List UInt8 :=
  littleEndian 8 content.length

/-- The most bytes a block holds. -/
def maxBlock : Nat :=
  0x20000

/-! ## Writing -/

/-- The head of a stored block. -/
def blockHead (last : Bool) (size : Nat) : List UInt8 :=
  littleEndian 3 (8 * size + if last then 1 else 0)

/-- The content in blocks; even no content makes a block. -/
def storeBlocks (content : List UInt8) : List UInt8 :=
  if _h : content.length ≤ maxBlock then blockHead true content.length ++ content
  else
    blockHead false maxBlock ++ content.take maxBlock ++ storeBlocks (content.drop maxBlock)
termination_by content.length
decreasing_by
  rw [List.length_drop]
  unfold maxBlock at *
  omega

/-- The frame of some content. -/
def store (content : List UInt8) : List UInt8 :=
  magic ++ (descriptor :: (sizeField content ++ storeBlocks content))

/-! ## Reading -/

/-- Why bytes are not read as a frame. -/
inductive Error
  | unknownFrame
  | incomplete
  | unsupported
  deriving DecidableEq, Repr

def Error.message : Error → String
  | unknownFrame => "Unknown frame descriptor"
  | incomplete => "incomplete frame"
  | unsupported => "Data corruption detected"

/-- A number of bytes, of which none may be missing. -/
def take (n : Nat) (bytes : List UInt8) : Except Error (List UInt8 × List UInt8) :=
  (splitBytes? n bytes).elim (.error .incomplete) .ok

theorem length_splitBytes? {n : Nat} {bytes first rest : List UInt8}
    (h : splitBytes? n bytes = some (first, rest)) : bytes.length = n + rest.length := by
  induction n generalizing bytes first with
  | zero =>
      simp only [splitBytes?, Option.some.injEq, Prod.mk.injEq] at h
      simp [h.2]
  | succ n ih =>
      cases bytes with
      | nil => simp [splitBytes?] at h
      | cons b bytes =>
          obtain ⟨⟨first', rest'⟩, hsplit, hpair⟩ := Option.map_eq_some_iff.1 h
          cases hpair
          have := ih hsplit
          simp only [List.length_cons]
          omega

/-- The content of the blocks at the front of the bytes. -/
def openBlocks (bytes : List UInt8) : Except Error (List UInt8) :=
  match _h : splitBytes? 3 bytes with
  | none => .error .incomplete
  | some (head, rest) =>
      let info := ofLittleEndian head
      if info / 2 % 4 ≠ 0 then .error .unsupported
      else
        match _h' : splitBytes? (info / 8) rest with
        | none => .error .incomplete
        | some (content, rest') =>
            if info % 2 = 1 then .ok content
            else (openBlocks rest').map (content ++ ·)
termination_by bytes.length
decreasing_by
  have := length_splitBytes? _h
  have := length_splitBytes? _h'
  omega

/-- Whether one list starts with another, or would if it went on. -/
def agrees : (expected bytes : List UInt8) → Bool
  | [], _ => true
  | _, [] => true
  | e :: expected, b :: bytes => e == b && agrees expected bytes

/-- The content of a frame. -/
def content (bytes : List UInt8) : Except Error (List UInt8) := do
  if !agrees magic bytes then .error .unknownFrame
  let (_, rest) ← take 4 bytes
  let (flags, rest) ← take 1 rest
  if flags ≠ [descriptor] then .error .unsupported
  let (size, rest) ← take 8 rest
  let stored ← openBlocks rest
  if sizeField stored = size then .ok stored else .error .unsupported

end Frame

/-- The compression that stores what it is given. -/
def Compression.stored : Compression where
  compress := Frame.store
  decompress bytes := (Frame.content bytes).mapError Frame.Error.message

end RubyIndex
