import ModuleSystem.Text

/-!
# UTF-8

Reading text as characters.  Every text can be read: a byte that starts no valid UTF-8 sequence
is read as the replacement character U+FFFD and takes one byte, so the bytes of the glyphs of a
text are again the text.
-/

namespace ModuleSystem

/-- A character as it stands in a text: its code point, and the bytes that spell it. -/
structure Glyph where
  code : Nat
  bytes : Text
deriving DecidableEq, Repr

/-- The number of bytes of a glyph. -/
def Glyph.width (g : Glyph) : Nat := g.bytes.length

namespace Utf8

/-- U+FFFD, which stands for what cannot be decoded. -/
def replacement : Nat := 0xFFFD

/-- A continuation byte. -/
def isContinuation (b : UInt8) : Bool := 0x80 ≤ b && b ≤ 0xBF

/-- The lowest and highest second byte of a sequence of three or four bytes: overlong forms,
surrogates and code points beyond U+10FFFF are excluded here. -/
def secondBounds (b : UInt8) : UInt8 × UInt8 :=
  if b = 0xE0 then (0xA0, 0xBF)
  else if b = 0xED then (0x80, 0x9F)
  else if b = 0xF0 then (0x90, 0xBF)
  else if b = 0xF4 then (0x80, 0x8F)
  else (0x80, 0xBF)

/-- The six low bits of a continuation byte. -/
def payload (b : UInt8) : Nat := b.toNat % 64

/-- The code point that a text begins with and the number of bytes it takes: none for the empty
text, and one when no valid sequence stands there. -/
def decode : Text → Nat × Nat
  | [] => (replacement, 0)
  | b₀ :: t =>
    let invalid := (replacement, 1)
    if b₀ < 0x80 then (b₀.toNat, 1)
    else if b₀ < 0xC2 then invalid
    else if b₀ < 0xE0 then
      match t with
      | b₁ :: _ =>
        if isContinuation b₁ then (b₀.toNat % 32 * 64 + payload b₁, 2) else invalid
      | _ => invalid
    else if b₀ < 0xF0 then
      match t with
      | b₁ :: b₂ :: _ =>
        if (secondBounds b₀).1 ≤ b₁ && b₁ ≤ (secondBounds b₀).2 && isContinuation b₂ then
          (b₀.toNat % 16 * 4096 + payload b₁ * 64 + payload b₂, 3)
        else invalid
      | _ => invalid
    else if b₀ < 0xF5 then
      match t with
      | b₁ :: b₂ :: b₃ :: _ =>
        if (secondBounds b₀).1 ≤ b₁ && b₁ ≤ (secondBounds b₀).2 && isContinuation b₂
            && isContinuation b₃ then
          (b₀.toNat % 8 * 262144 + payload b₁ * 4096 + payload b₂ * 64 + payload b₃, 4)
        else invalid
      | _ => invalid
    else invalid

/-- The glyphs of a text of which the first `skip` bytes are already read. -/
def glyphsFrom : Nat → Text → List Glyph
  | _, [] => []
  | skip + 1, _ :: t => glyphsFrom skip t
  | 0, b :: t =>
    let (code, width) := decode (b :: t)
    ⟨code, (b :: t).take width⟩ :: glyphsFrom (width - 1) t

/-- The characters of a text, in order. -/
def glyphs (t : Text) : List Glyph := glyphsFrom 0 t

/-- The bytes of a list of glyphs. -/
def bytesOf (gs : List Glyph) : Text := gs.flatMap (·.bytes)

/-- A surrogate code point, which has no UTF-8 form. -/
def isSurrogate (c : Nat) : Bool := 0xD800 ≤ c && c ≤ 0xDFFF

/-- The bytes of a code point by the general scheme of one to four bytes. -/
def encodeRaw (c : Nat) : Text :=
  if c < 0x80 then [c.toUInt8]
  else if c < 0x800 then [(0xC0 + c / 64).toUInt8, (0x80 + c % 64).toUInt8]
  else if c < 0x10000 then
    [(0xE0 + c / 4096).toUInt8, (0x80 + c / 64 % 64).toUInt8, (0x80 + c % 64).toUInt8]
  else
    [(0xF0 + c / 262144).toUInt8, (0x80 + c / 4096 % 64).toUInt8, (0x80 + c / 64 % 64).toUInt8,
      (0x80 + c % 64).toUInt8]

/-- The UTF-8 bytes of a code point; those of U+FFFD when it has none. -/
def encode (c : Nat) : Text :=
  encodeRaw (if isSurrogate c || 0x10FFFF < c then replacement else c)

/-- A glyph that was read from a byte that starts no valid sequence. -/
def isInvalid (g : Glyph) : Bool := g.code == replacement && g.width == 1

/-- Every byte of the text belongs to a valid sequence. -/
def isValid (t : Text) : Bool := (glyphs t).all fun g => !isInvalid g

/-- The text with every byte that starts no valid sequence replaced by U+FFFD. -/
def repair (t : Text) : Text := (glyphs t).flatMap fun g => encode g.code

end Utf8

/-! ### White space around text

White space in the sense of Unicode: blanks, tabs, line ends and the spaces of every width. -/

namespace Text

/-- A white space character. -/
def isSpace (c : Nat) : Bool :=
  (9 ≤ c && c ≤ 13) || c = 32 || c = 0x85 || c = 0xA0 || c = 0x1680 || (0x2000 ≤ c && c ≤ 0x200A)
    || c = 0x2028 || c = 0x2029 || c = 0x202F || c = 0x205F || c = 0x3000

/-- The text without the white space at its ends. -/
def trim (t : Text) : Text :=
  let dropSpace (gs : List Glyph) := gs.dropWhile fun g => isSpace g.code
  Utf8.bytesOf (dropSpace (dropSpace (Utf8.glyphs t)).reverse).reverse

/-- The words of a text, divided by white space. -/
def words (t : Text) : List Text :=
  let (word, rest) := (Utf8.glyphs t).foldl (fun (word, done) g =>
    if isSpace g.code then ([], done ++ [word]) else (word ++ g.bytes, done)) (([] : Text), [])
  (rest ++ [word]).filter fun w => !w.isEmpty

end Text

end ModuleSystem
