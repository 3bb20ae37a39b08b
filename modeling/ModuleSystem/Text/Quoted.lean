import ModuleSystem.Text.Utf16
import ModuleSystem.Unicode.Printable

/-!
# Quoted text

Two ways to put a text between double quotes.  `display` is for people: it is used in messages and
keeps every character that has a visible form.  `literal` is for programs: its result is at once a
JSON string and a script string literal, it holds no line terminator, and a surrogate without
partner survives as an escape.
-/

namespace ModuleSystem.Quoted

/-- The characters that `display` writes as they are. -/
def isVisible (c : Nat) : Bool :=
  if c < 0x80 then 0x20 ≤ c && c ≤ 0x7E else Unicode.printable.mem c

/-- A code point as an escape of four digits, or of eight beyond U+FFFF. -/
def displayEscape (c : Nat) : Text :=
  if c < 0x10000 then ("\\u" : Text) ++ Hex.digits Hex.lowerDigit 4 c
  else ("\\U" : Text) ++ Hex.digits Hex.lowerDigit 8 c

/-- A byte as an escape of two digits. -/
def byteEscape (n : Nat) : Text := ("\\x" : Text) ++ Hex.digits Hex.lowerDigit 2 n

/-- The control characters that `display` writes as a backslash and a letter. -/
def shortEscape? (c : Nat) : Option UInt8 :=
  [(7, 97), (8, 98), (12, 102), (10, 110), (13, 114), (9, 116), (11, 118)].lookup c

/-- One character of a displayed text. -/
def displayGlyph (g : Glyph) : Text :=
  if Utf8.isInvalid g then byteEscape ((g.bytes.headD 0).toNat)
  else if g.code = 34 || g.code = 92 then 92 :: g.bytes
  else if isVisible g.code then g.bytes
  else match shortEscape? g.code with
    | some letter => [92, letter]
    | none => if g.code < 0x20 || g.code = 0x7F then byteEscape g.code else displayEscape g.code

/-- The text between double quotes, readable by people. -/
def display (t : Text) : Text :=
  34 :: (Utf8.glyphs t).flatMap displayGlyph ++ [34]

/-- The character whose code point is a byte, between single quotes. -/
def displayByte (b : UInt8) : Text :=
  let shown := if b = 39 then [92, 39] else if b = 34 then [34]
    else displayGlyph ⟨b.toNat, Utf8.encode b.toNat⟩
  39 :: shown ++ [39]

/-- A code point by its number, and by its visible form if it has one. -/
def codePoint (c : Nat) : Text :=
  let digits := (Hex.digits Hex.upperDigit 6 c).dropWhile (· = 48)
  let number : Text := "U+" ++ Text.filled (4 - digits.length) 48 ++ digits
  if isVisible c then number ++ [32, 39] ++ Utf8.encode c ++ [39] else number

/-- The characters that `literal` writes as they are: neither quotes, backslashes nor control
characters, nor what ends a line or marks byte order, nor surrogates. -/
def isPlain (c : Nat) : Bool :=
  if c ≤ 0x7E then 0x20 ≤ c && c != 92 && c != 34
  else c != 0x2028 && c != 0x2029 && c != 0xFEFF && !Utf8.isSurrogate c

/-- The letter of a two-character escape. -/
def literalEscape? (c : Nat) : Option UInt8 :=
  [(8, 98), (12, 102), (10, 110), (13, 114), (9, 116), (92, 92), (34, 34)].lookup c

/-- One character of a literal. -/
def literalGlyph (g : Glyph) : Text :=
  if isPlain g.code then g.bytes
  else match literalEscape? g.code with
    | some letter => [92, letter]
    | none => ("\\u" : Text) ++ Hex.digits Hex.upperDigit 4 g.code

/-- The text as a string literal between double quotes. -/
def literal (t : Text) : Text :=
  34 :: (Utf16.glyphs t).flatMap literalGlyph ++ [34]

end ModuleSystem.Quoted
