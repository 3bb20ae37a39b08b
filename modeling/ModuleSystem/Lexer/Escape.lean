import ModuleSystem.Lexer.Gap
import ModuleSystem.Text.Utf16

/-!
# Escapes

What the characters between the quotes of a string or template, and the characters of an
identifier with escapes, stand for.  The value of a code point escape is accumulated in 32 bits;
a value beyond U+10FFFF is remembered before it can wrap around.
-/

namespace ModuleSystem.Lexer

/-- The greatest code point. -/
def maxCodePoint : Int32 := 0x10FFFF

/-- Reads the digits and the closing brace of a code point escape. `count` digits were read and
make up `value`; `outside` tells that the value was too great at some digit. The result is the
value, whether it was ever too great, and the number of digits. -/
def readBraced (pos : Nat) (value : Int32) (outside : Bool) (count : Nat) :
    List Glyph → Except Fault (Int32 × Bool × Nat)
  | [] => .error (.unexpectedCharacter pos)
  | g :: gs =>
    match CodePoint.hexValue? g.code with
    | some v =>
      let value := value * 16 ||| Int32.ofNat v
      readBraced (pos + 1) value (outside || maxCodePoint < value) (count + 1) gs
    | none =>
      if g.code = 125 && count ≠ 0 then .ok (value, outside, count)
      else .error (.unexpectedCharacter pos)

/-- Reads exactly `count` hexadecimal digits. -/
def readFixed (pos : Nat) (value : Nat) : Nat → List Glyph → Except Fault Nat
  | 0, _ => .ok value
  | _ + 1, [] => .error (.unexpectedCharacter pos)
  | count + 1, g :: gs =>
    match CodePoint.hexValue? g.code with
    | some v => readFixed (pos + 1) (value * 16 + v) count gs
    | none => .error (.unexpectedCharacter pos)

/-- An octal digit. -/
def octalValue? (c : Nat) : Option Nat := if 48 ≤ c && c ≤ 55 then some (c - 48) else none

/-- Reads what may follow the first digit of an octal escape: up to two more digits, as long as
the value stays below 256. The result is the value and the number of digits after the first. -/
def readOctal (value : Nat) (gs : List Glyph) : Nat × Nat :=
  match gs with
  | [] => (value, 0)
  | g :: gs =>
    match octalValue? g.code with
    | none => (value, 0)
    | some v =>
      let value := value * 8 + v
      match gs with
      | [] => (value, 1)
      | h :: _ =>
        match octalValue? h.code with
        | none => (value, 1)
        | some w => if value * 8 + w < 256 then (value * 8 + w, 2) else (value, 1)

/-- The control character that a letter after a backslash stands for. -/
def controlEscape? (c : Nat) : Option UInt16 :=
  [(98, 8), (102, 12), (110, 10), (114, 13), (116, 9)].lookup c

/-- Something that JSON does not allow. -/
def scriptOnly (d : Dialect) (pos : Nat) : Except Fault Unit :=
  match d with
  | .script => .ok ()
  | .json => .error (.unexpectedCharacter pos)

/-- Reads the escape after a backslash at `pos`. The result is what it stands for and the number
of characters after the backslash. -/
def readEscape (d : Dialect) (pos : Nat) : List Glyph → Except Fault (List UInt16 × Nat)
  | [] => .ok ([0xFFFD], 0)
  | g :: gs =>
    let c := g.code
    match controlEscape? c with
    | some u => .ok ([u], 1)
    | none =>
      if c = 118 then do
        scriptOnly d (pos + 1)
        return ([11], 1)
      else if (octalValue? c).isSome then do
        scriptOnly d (pos + 1)
        let (value, more) := readOctal (c - 48) gs
        return (Utf16.units value, 1 + more)
      else if c = 120 then do
        scriptOnly d (pos + 1)
        let value ← readFixed (pos + 2) 0 2 gs
        return (Utf16.units value, 3)
      else if c = 117 then
        match gs with
        | h :: hs =>
          if h.code = 123 then do
            scriptOnly d (pos + 2)
            let (value, outside, count) ← readBraced (pos + 3) 0 false 0 hs
            if outside then .error (.escapeOutOfRange ⟨pos, count + 4⟩)
            else return (Utf16.units value.toNatClampNeg, count + 3)
          else do
            let value ← readFixed (pos + 2) 0 4 gs
            return (Utf16.units value, 5)
        | [] => .error (.unexpectedCharacter (pos + 2))
      else if c = 13 then do
        scriptOnly d (pos + 1)
        return ([], if (gs.head?.map (·.code)) = some 10 then 2 else 1)
      else if isLineEnd c then do
        scriptOnly d (pos + 1)
        return ([], 1)
      else do
        unless c = 34 || c = 92 || c = 47 do scriptOnly d (pos + 1)
        return (Utf16.units c, 1)

/-- Reads one character, or one escape, at `pos`. The result is what it stands for and the number
of further characters that it takes. A carriage return stands for a line feed, alone or with the
line feed after it. -/
def readUnit (d : Dialect) (pos : Nat) (g : Glyph) (gs : List Glyph) :
    Except Fault (List UInt16 × Nat) :=
  if g.code = 92 then readEscape d pos gs
  else if g.code = 13 then .ok ([10], if (gs.head?.map (·.code)) = some 10 then 1 else 0)
  else .ok (Utf16.units g.code, 0)

/-- The code units that glyphs from `pos` on stand for, when the first `skip` glyphs are already
read. -/
def decodeFrom (d : Dialect) : Nat → Nat → List Glyph → Except Fault (List UInt16)
  | _, _, [] => .ok []
  | skip + 1, pos, g :: gs => decodeFrom d skip (pos + g.width) gs
  | 0, pos, g :: gs => do
    let (units, taken) ← readUnit d pos g gs
    let more ← decodeFrom d taken (pos + g.width) gs
    return units ++ more

/-- The code units that glyphs from `pos` on stand for. -/
def decodeUnits (d : Dialect) (pos : Nat) (gs : List Glyph) : Except Fault (List UInt16) :=
  decodeFrom d 0 pos gs

end ModuleSystem.Lexer
