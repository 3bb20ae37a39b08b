import ModuleSystem.Lexer.Cursor

/-!
# Numbers

Numbers are only read for their extent: their digits are checked and never converted.
-/

namespace ModuleSystem.Lexer

/-- A digit of a base, which is 2, 8, 10 or 16. -/
def isDigitOf (base : Nat) (c : Nat) : Bool :=
  match CodePoint.hexValue? c with
  | some v => v < base
  | none => false

/-- The end of a run of digits with single underscores between them. `underscore` tells that the
character before `pos` is an underscore, and a run does not end after one. -/
def digitsEnd (base : Nat) : Bool → Nat → List Glyph → Except Fault Cursor
  | underscore, pos, [] =>
    if underscore then .error (.unexpectedCharacter (pos - 1)) else .ok ⟨pos, []⟩
  | underscore, pos, g :: gs =>
    if g.code = 95 then
      if underscore then .error (.unexpectedCharacter pos) else digitsEnd base true (pos + 1) gs
    else if isDigitOf base g.code then digitsEnd base false (pos + 1) gs
    else if underscore then .error (.unexpectedCharacter (pos - 1))
    else .ok ⟨pos, g :: gs⟩

/-- The end of the digits at a cursor. -/
def skipDigits (base : Nat) (c : Cursor) : Except Fault Cursor := digitsEnd base false c.pos c.rest

/-- The base that a letter after a leading zero announces. -/
def baseOf? (c : Nat) : Option Nat :=
  if c = 98 || c = 66 then some 2
  else if c = 111 || c = 79 then some 8
  else if c = 120 || c = 88 then some 16
  else none

/-- The end of a number with a base letter; the cursor is on the letter. -/
def scanBased (base : Nat) (c : Cursor) : Except Fault (TokenKind × Cursor) := do
  let c := c.step
  unless c.sees (isDigitOf base) do throw (.unexpectedCharacter c.pos)
  let c ← skipDigits base c
  if c.peek = some 110 then return (.bigInteger, c.step)
  return (.number, c)

/-- The end of the fraction at a cursor, which is on the point. -/
def scanFraction (c : Cursor) : Except Fault Cursor := do
  let c := c.step
  if c.peek = some 95 then throw (.unexpectedCharacter c.pos)
  skipDigits 10 c

/-- The end of the exponent at a cursor, which is on its letter. -/
def scanExponent (c : Cursor) : Except Fault Cursor := do
  let c := c.step
  let c := if c.sees fun d => d = 43 || d = 45 then c.step else c
  unless c.sees CodePoint.isDigit do throw (.unexpectedCharacter c.pos)
  skipDigits 10 c

/-- The end of a decimal number that began with the character `first` at `start`; the cursor is
after that character. -/
def scanDecimal (start first : Nat) (c : Cursor) : Except Fault (TokenKind × Cursor) := do
  let legacyOctal := first = 48 && c.sees CodePoint.isDigit
  let c ← skipDigits 10 c
  let hasPoint := first ≠ 46 && c.peek = some 46 && !legacyOctal
  let c ← if hasPoint then scanFraction c else pure c
  let hasExponent := c.sees (fun d => d = 101 || d = 69) && !legacyOctal
  let c ← if hasExponent then scanExponent c else pure c
  if c.peek = some 110 && first ≠ 46 && !hasPoint && !hasExponent then
    if first = 48 && 1 < c.pos - start then throw (.unexpectedCharacter c.pos)
    return (.bigInteger, c.step)
  return (.number, c)

/-- The end of the number that began with the character `first` at `start`; the cursor is after
that character. An identifier does not follow a number directly. -/
def scanNumber (start first : Nat) (c : Cursor) : Except Fault (TokenKind × Cursor) := do
  let (kind, c) ←
    match (if first = 48 then c.peek.bind baseOf? else none) with
    | some base => scanBased base c
    | none => scanDecimal start first c
  if c.sees fun d => CodePoint.isIdentifierStart d || d = 92 then
    throw (.unexpectedCharacter c.pos)
  return (kind, c)

end ModuleSystem.Lexer
