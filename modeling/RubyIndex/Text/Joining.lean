import RubyIndex.Text.Emoji
import RubyIndex.Text.Width

/-!
# Width of texts

The width of a text is the sum of the widths of its characters, except where neighbours join into
one glyph: emoji sequences, and ligatures of several scripts.  A text is measured from its end, and
each character is told what it stands before.

* `Tail`, what the text behind a place begins with;
* `Tail.before`, what a character adds to the width when it stands before a tail;
* `width`, the width of a text in one line.
-/

namespace RubyIndex
namespace Text

/-! ## Classes of characters -/

/-- The joiner of zero width. -/
def isJoiner (c : Char) : Bool :=
  c.toNat == 0x200D

/-- The code points of invisible marks, over which letters join. -/
def invisibleMarkRanges : Array (Nat × Nat) :=
  #[(0x34F, 0x34F), (0x17B4, 0x17B5), (0x180B, 0x180D), (0x180F, 0x180F), (0xFE00, 0xFE0F),
    (0xE0100, 0xE01EF)]

def isInvisibleMark (c : Char) : Bool :=
  inRanges invisibleMarkRanges c.toNat

/-- The code points of characters without a column that still part Arabic letters. -/
def partingRanges : Array (Nat × Nat) :=
  #[(0x605, 0x605), (0x890, 0x891), (0x8E2, 0x8E2), (0x9BE, 0x9BE), (0x9D7, 0x9D7),
    (0xB3E, 0xB3E), (0xB57, 0xB57), (0xBBE, 0xBBE), (0xBD7, 0xBD7), (0xCC0, 0xCC0),
    (0xCC2, 0xCC2), (0xCC7, 0xCC8), (0xCCA, 0xCCB), (0xCD5, 0xCD6), (0xD3E, 0xD3E),
    (0xD4E, 0xD4E), (0xD57, 0xD57), (0xDCF, 0xDCF), (0xDDF, 0xDDF), (0x1160, 0x11FF),
    (0x1715, 0x1715), (0x1734, 0x1734), (0x180E, 0x180E), (0x1B35, 0x1B35), (0x1B3B, 0x1B3B),
    (0x1B3D, 0x1B3D), (0x1B43, 0x1B44), (0x1BAA, 0x1BAA), (0x1BF2, 0x1BF3), (0x200C, 0x200D),
    (0x2065, 0x2069), (0x302E, 0x302F), (0x3164, 0x3164), (0xA8FA, 0xA8FA), (0xA953, 0xA953),
    (0xA9C0, 0xA9C0), (0xD7B0, 0xD7C6), (0xD7CB, 0xD7FB), (0xFFA0, 0xFFA0), (0xFFF0, 0xFFF8),
    (0x111C0, 0x111C0), (0x111C2, 0x111C3), (0x11235, 0x11235), (0x1133E, 0x1133E),
    (0x1134D, 0x1134D), (0x11357, 0x11357), (0x113B8, 0x113B8), (0x113C2, 0x113C2),
    (0x113C5, 0x113C5), (0x113C7, 0x113C9), (0x113CF, 0x113CF), (0x113D1, 0x113D1),
    (0x114B0, 0x114B0), (0x114BD, 0x114BD), (0x115AF, 0x115AF), (0x116B6, 0x116B6),
    (0x11930, 0x11930), (0x1193D, 0x1193D), (0x1193F, 0x1193F), (0x11941, 0x11941),
    (0x11A84, 0x11A89), (0x11D46, 0x11D46), (0x11F02, 0x11F02), (0x11F41, 0x11F41),
    (0x16FF0, 0x16FF1), (0x1D165, 0x1D166), (0x1D16D, 0x1D172), (0xE0000, 0xE0000),
    (0xE0002, 0xE001F), (0xE0080, 0xE00FF), (0xE01F0, 0xE0FFF)]

/-- Whether Arabic letters join over a character. -/
def isTransparent (c : Char) : Bool :=
  isZeroWidth c && !inRanges partingRanges c.toNat

/-- The code points of the Arabic letters shaped like alef. -/
def alefRanges : Array (Nat × Nat) :=
  #[(0x622, 0x623), (0x625, 0x625), (0x627, 0x627), (0x671, 0x673), (0x675, 0x675),
    (0x773, 0x774), (0x870, 0x882)]

/-- The code points of the Arabic letters shaped like lam. -/
def lamRanges : Array (Nat × Nat) :=
  #[(0x644, 0x644), (0x6B5, 0x6B8), (0x76A, 0x76A), (0x8A6, 0x8A6), (0x8C7, 0x8C7)]

/-- The code points of the Khmer letters whose subscript form stays below the letter before. -/
def subscriptRanges : Array (Nat × Nat) :=
  #[(0x1780, 0x1782), (0x1784, 0x1787), (0x1789, 0x178C), (0x178E, 0x1793), (0x1795, 0x1798),
    (0x179B, 0x179D), (0x17A0, 0x17A0), (0x17A2, 0x17A2), (0x17A7, 0x17A7), (0x17AB, 0x17AC),
    (0x17AF, 0x17AF)]

/-- The curly quotation marks, which East Asian texts set full-width. -/
def isCurlyQuote (c : Char) : Bool :=
  c.toNat == 0x2018 || c.toNat == 0x2019 || c.toNat == 0x201C || c.toNat == 0x201D

/-- The Tifinagh consonants, which join in pairs. -/
def isTifinaghConsonant (c : Char) : Bool :=
  (0x2D31 ≤ c.toNat && c.toNat ≤ 0x2D65) || c.toNat == 0x2D6F

/-! ## What follows -/

/-- The style that a variation selector asks of the character before it. -/
inductive Style
  | plain
  | picture
  /-- As wide as an ideograph. -/
  | fullwidth
  deriving DecidableEq, Repr

/-- A letter that joins with the ones before it, over invisible marks and, if need be, only by a
joiner. -/
inductive Letter
  /-- Hebrew lamed, which joins to alef. -/
  | lamed
  /-- Buginese ya, which joins to the vowel sign i. -/
  | ya
  /-- Buginese i with ya, which joins to a. -/
  | iya
  /-- A Tifinagh consonant, which joins to another one. -/
  | consonant
  /-- A Tifinagh consonant with the Tifinagh joiner before it. -/
  | joinedConsonant
  /-- A Lisu tone that completes the tone before it. -/
  | tone
  /-- Old Turkic i, which joins to ec. -/
  | orkhonI
  /-- A Khmer letter, which goes below the one before. -/
  | subscript
  deriving DecidableEq, Repr

/-- What the text behind a place begins with, if it can join what stands before. -/
inductive Shape
  | other
  /-- A skin tone. -/
  | modifier
  | indicator
  /-- Two indicators or more. -/
  | indicators
  | emoji
  /-- A joiner and an emoji. -/
  | joinedEmoji
  /-- A keycap mark before a joiner and an emoji. -/
  | joinedKeycap
  /-- One indicator before a joiner and an emoji. -/
  | joinedIndicator
  /-- An even number of indicators before a joiner and an emoji. -/
  | joinedEven
  /-- An odd number of indicators, at least three, before a joiner and an emoji. -/
  | joinedOdd
  /-- The tag digits and letters, and the tag end, that name a flag before a joiner and an emoji. -/
  | tags (digits letters : Nat)
  /-- The Kirat Rai vowel sign e, which doubles to ai. -/
  | vowelE
  | vowelAi
  /-- An Arabic letter shaped like alef. -/
  | alef
  | letter (l : Letter) (joined : Bool)
  deriving DecidableEq, Repr

/-- The text behind a place, and the style it asks of the character before. -/
structure Tail where
  shape : Shape := .other
  style : Option Style := none
  deriving DecidableEq, Repr

/-! ## Joining -/

/-- What a character begins when it joins with nothing. -/
def Shape.ofChar (c : Char) : Shape :=
  let n := c.toNat
  if n == 0x5DC then .letter .lamed false
  else if inRanges alefRanges n then .alef
  else if inRanges subscriptRanges n then .letter .subscript false
  else if n == 0x1A10 then .letter .ya false
  else if isTifinaghConsonant c then .letter .consonant false
  else if n == 0xA4FC || n == 0xA4FD then .letter .tone false
  else if n == 0x10C03 then .letter .orkhonI false
  else if n == 0x16D67 then .vowelE
  else if n == 0x16D68 then .vowelAi
  else if isIndicator c then .indicator
  else if isModifier c then .modifier
  else if isEmoji c then .emoji
  else .other

/-- What a character that joins a letter adds to the width, and what they begin together. -/
def Letter.join? (l : Letter) (joined : Bool) (c : Char) : Option (Int × Shape) :=
  let n := c.toNat
  match l with
  | lamed => if joined && n == 0x5D0 then some (0, .other) else none
  | ya => if joined && n == 0x1A17 then some (0, .letter .iya true) else none
  | iya => if n == 0x1A15 then some (0, .other) else none
  | consonant =>
      if n == 0x2D7F then some (1, .letter .joinedConsonant true)
      else if joined && isTifinaghConsonant c then some (0, .other)
      else none
  | joinedConsonant => if isTifinaghConsonant c then some (-1, .other) else none
  | tone => if 0xA4F8 ≤ n && n ≤ 0xA4FB then some (0, .other) else none
  | orkhonI => if joined && n == 0x10C32 then some (0, .other) else none
  | subscript => if n == 0x17D2 then some (-1, .other) else none

/-- What a character before a joiner and an emoji adds to the width, and what they begin
together. -/
def joinEmoji? (c : Char) : Option (Int × Shape) :=
  if c.toNat == 0x20E3 then some (0, .joinedKeycap)
  else if c.toNat == 0xE007F then some (0, .tags 0 0)
  else if isIndicator c then some (1, .joinedIndicator)
  else if isModifier c then some (0, .modifier)
  else if isEmoji c then some (0, .emoji)
  else none

/-- The same before the tags of a flag, which name a region by three digits or two letters, and a
part of it by letters; the black flag completes them. -/
def joinTags? (digits letters : Nat) (c : Char) : Option (Int × Shape) :=
  if isTagLetter c && digits == 0 && letters < 6 then some (0, .tags 0 (letters + 1))
  else if isTagDigit c && digits < 3 && letters < 5 then some (0, .tags (digits + 1) letters)
  else if c.toNat == 0x1F3F4 && (digits == 3 || digits == 0 && 3 ≤ letters) then some (0, .emoji)
  else none

/-- What a character adds to the width when it joins with a shape behind it, and what they begin
together. -/
def Shape.join? (shape : Shape) (c : Char) : Option (Int × Shape) :=
  match shape with
  | other => none
  | modifier =>
      if isModifierBase c then some (0, .emoji)
      else if isJoiner c then some (0, .joinedEmoji)
      else none
  | indicator => if isIndicator c then some (1, .indicators) else none
  | indicators =>
      if isIndicator c then some (1, .indicators)
      else if isJoiner c then some (0, .joinedEmoji)
      else none
  | emoji => if isJoiner c then some (0, .joinedEmoji) else none
  | joinedEmoji => joinEmoji? c
  | joinedKeycap => none
  | joinedIndicator => if isIndicator c then some (-1, .joinedEven) else none
  | joinedEven =>
      if isIndicator c then some (3, .joinedOdd)
      else if isJoiner c then some (0, .joinedEmoji)
      else none
  | joinedOdd =>
      if isIndicator c then some (-1, .joinedEven)
      else if isJoiner c then some (0, .joinedEmoji)
      else none
  | tags digits letters => joinTags? digits letters c
  | vowelE =>
      match c.toNat with
      | 0x16D63 => some (0, .other)
      | 0x16D67 => some (0, .vowelAi)
      | 0x16D68 => some (1, .vowelE)
      | 0x16D69 => some (0, .other)
      | _ => none
  | vowelAi => if c.toNat == 0x16D63 then some (0, .other) else none
  | alef =>
      if inRanges lamRanges c.toNat then some (0, .other)
      else if isTransparent c then some (0, .alef)
      else none
  | letter l joined =>
      if isJoiner c then some (0, .letter l true)
      else if isInvisibleMark c then some (0, .letter l joined)
      else l.join? joined c

/-- What a character adds to the width when no style is asked of it, and what it begins. -/
def Shape.before (shape : Shape) (c : Char) : Int × Shape :=
  (shape.join? c).getD (charWidth c, .ofChar c)

/-! ## Styles -/

/-- What is left of a shape when a selector of plain or full-width style stands before it: letters
join over it. -/
def Shape.behindPlain : Shape → Shape
  | alef => alef
  | letter l joined => letter l joined
  | _ => other

/-- What is left of a shape when a selector of pictorial style stands before it: letters, and emoji
by their joiner, join over it. -/
def Shape.behindPicture : Shape → Shape
  | joinedEmoji => joinedEmoji
  | joinedKeycap => joinedKeycap
  | shape => shape.behindPlain

/-- The width of a picture before a shape: it takes no columns of its own when a joiner stands
between it and an emoji. -/
def Shape.pictureWidth : Shape → Int
  | joinedEmoji => 0
  | joinedKeycap => 0
  | _ => 2

/-- What a character adds to the width before a shape, and the tail that it begins. -/
def Shape.extend (shape : Shape) (c : Char) : Int × Tail :=
  if c.toNat == 0xFE01 then (0, ⟨shape.behindPlain, some .fullwidth⟩)
  else if c.toNat == 0xFE0E then (0, ⟨shape.behindPlain, some .plain⟩)
  else if c.toNat == 0xFE0F then (0, ⟨shape.behindPicture, some .picture⟩)
  else
    let (added, shape) := shape.before c
    (added, ⟨shape, none⟩)

/-- What a character adds to the width when it stands before a tail, and the tail that it begins. -/
def Tail.before (tail : Tail) (c : Char) : Int × Tail :=
  match tail.style with
  | none => tail.shape.extend c
  | some .plain => if isNarrowed c then (1, {}) else tail.shape.extend c
  | some .fullwidth => if isCurlyQuote c then (2, {}) else tail.shape.extend c
  | some .picture =>
      if isStyled c then (tail.shape.pictureWidth, ⟨.emoji, none⟩)
      else tail.shape.behindPlain.extend c

/-! ## Texts -/

/-- The width of characters, and the tail they begin. -/
def columns : List Char → Int × Tail
  | [] => (0, {})
  | c :: rest =>
      let (sum, tail) := columns rest
      let (added, tail) := tail.before c
      (sum + added, tail)

/-- The width of a text in one line. -/
def width (s : String) : Nat :=
  (columns s.toList).1.toNat

end Text
end RubyIndex
