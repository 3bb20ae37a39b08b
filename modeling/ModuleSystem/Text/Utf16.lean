import ModuleSystem.Text.Utf8

/-!
# UTF-16 code units

String values are sequences of UTF-16 code units and may hold unpaired surrogates.  As text they
are spelled in UTF-8 extended to surrogates: a surrogate without partner takes the three bytes
that the general scheme gives its code point, so no two unit sequences share a spelling.
-/

namespace ModuleSystem.Utf16

/-- The first half of a surrogate pair. -/
def isHigh (u : UInt16) : Bool := 0xD800 ≤ u && u ≤ 0xDBFF

/-- The second half of a surrogate pair. -/
def isLow (u : UInt16) : Bool := 0xDC00 ≤ u && u ≤ 0xDFFF

/-- The code point of a surrogate pair. -/
def pair (high low : UInt16) : Nat :=
  (high.toNat - 0xD800) * 1024 + (low.toNat - 0xDC00) + 0x10000

/-- The code points of a unit sequence; a surrogate without partner stands for itself. -/
def codePoints : List UInt16 → List Nat
  | [] => []
  | [u] => [u.toNat]
  | u :: v :: us =>
    if isHigh u && isLow v then pair u v :: codePoints us
    else u.toNat :: codePoints (v :: us)

/-- The units of a code point. -/
def units (c : Nat) : List UInt16 :=
  if c ≤ 0xFFFF then [c.toUInt16]
  else [(0xD800 + (c - 0x10000) / 1024 % 1024).toUInt16, (0xDC00 + (c - 0x10000) % 1024).toUInt16]

/-- The text of a unit sequence, surrogates without partner included. -/
def toText (us : List UInt16) : Text := (codePoints us).flatMap Utf8.encodeRaw

/-- The first surrogate without partner. -/
def unpaired? (us : List UInt16) : Option UInt16 :=
  ((codePoints us).find? Utf8.isSurrogate).map (·.toUInt16)

/-- The text of a unit sequence, or its first surrogate without partner. -/
def toText? (us : List UInt16) : Except UInt16 Text :=
  match unpaired? us with
  | some u => .error u
  | none => .ok (toText us)

/-- The text of a unit sequence with U+FFFD for each surrogate without partner. -/
def toTextRepaired (us : List UInt16) : Text := (codePoints us).flatMap Utf8.encode

/-- The code point that a text begins with and the number of bytes it takes, where the three-byte
form of a surrogate is accepted too. -/
def decode (t : Text) : Nat × Nat :=
  match t with
  | b₀ :: b₁ :: b₂ :: _ =>
    if b₀ = 0xED && 0xA0 ≤ b₁ && b₁ ≤ 0xBF && Utf8.isContinuation b₂ then
      (0xD000 + Utf8.payload b₁ * 64 + Utf8.payload b₂, 3)
    else Utf8.decode t
  | _ => Utf8.decode t

/-- The glyphs of a text of which the first `skip` bytes are already read. -/
def glyphsFrom : Nat → Text → List Glyph
  | _, [] => []
  | skip + 1, _ :: t => glyphsFrom skip t
  | 0, b :: t =>
    let (code, width) := decode (b :: t)
    ⟨code, (b :: t).take width⟩ :: glyphsFrom (width - 1) t

/-- The characters of a text, where the three-byte form of a surrogate is one character. -/
def glyphs (t : Text) : List Glyph := glyphsFrom 0 t

end ModuleSystem.Utf16
