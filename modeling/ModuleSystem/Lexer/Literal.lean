import ModuleSystem.Lexer.Escape

/-!
# Strings, templates and regular expressions

The extent of what stands between delimiters.
-/

namespace ModuleSystem.Lexer

/-- How a quoted text ends. -/
inductive Closing where
  /-- With its quote. -/
  | quote
  /-- With the opening of a substitution. -/
  | substitution
deriving DecidableEq, Repr

/-- The number of bytes of a closing. -/
def Closing.width : Closing → Nat
  | .quote => 1
  | .substitution => 2

/-- The end of the quoted text that goes on at `pos`, its closing included. -/
def quotedEnd (d : Dialect) (quote : Nat) : Nat → List Glyph → Except Fault (Closing × Cursor)
  | pos, [] => .error (.unexpectedCharacter pos)
  | pos, g :: gs =>
    if g.code = 92 then
      match gs with
      | [] => .error (.unexpectedCharacter (pos + 1))
      | h :: hs =>
        if h.code = 13 && d == .script then
          match hs with
          | k :: ks =>
            if k.code = 10 then quotedEnd d quote (pos + 3) ks
            else quotedEnd d quote (pos + 2) (k :: ks)
          | [] => quotedEnd d quote (pos + 2) []
        else quotedEnd d quote (pos + 1 + h.width) hs
    else if g.code = 13 || g.code = 10 then
      if quote = 96 then quotedEnd d quote (pos + 1) gs else .error (.unterminatedString pos)
    else if g.code = 36 && quote = 96 then
      match gs with
      | h :: hs =>
        if h.code = 123 then .ok (.substitution, ⟨pos + 2, hs⟩)
        else quotedEnd d quote (pos + 1) (h :: hs)
      | [] => quotedEnd d quote (pos + 1) []
    else if g.code = quote then .ok (.quote, ⟨pos + 1, gs⟩)
    else if d == .json && g.code < 0x20 then .error (.unexpectedCharacter pos)
    else quotedEnd d quote (pos + g.width) gs

/-- The kind of a quoted text. `resumed` tells that it goes on after a substitution. -/
def quotedKind (quote : Nat) (resumed : Bool) (closing : Closing) : TokenKind :=
  if quote ≠ 96 then .string
  else match closing, resumed with
    | .quote, false => .template
    | .quote, true => .templateTail
    | .substitution, false => .templateHead
    | .substitution, true => .templateMiddle

/-- Reads the string or template whose opening, of one byte, is at `start`; the cursor is after
the opening. -/
def scanQuoted (d : Dialect) (quote : Nat) (resumed : Bool) (start : Nat) (c : Cursor) :
    Except Fault (TokenKind × List UInt16 × Cursor) := do
  let (closing, stop) ← quotedEnd d quote c.pos c.rest
  let units ← decodeUnits d c.pos (Glyph.takeBytes (stop.pos - closing.width - c.pos) c.rest)
  if d == .json && quote ≠ 34 then throw (.quoteInJson (.between start stop.pos))
  return (quotedKind quote resumed closing, units, stop)

/-- The end of the pattern of a regular expression that goes on at `pos`, its slash included.
`inClass` tells that the place is between brackets, where a slash is an ordinary character. -/
def patternEnd (inClass : Bool) : Nat → List Glyph → Except Fault Cursor
  | pos, [] => .error (.unexpectedCharacter pos)
  | pos, g :: gs =>
    if g.code = 92 then
      match gs with
      | [] => .error (.unexpectedCharacter (pos + 1))
      | h :: hs =>
        if isLineEnd h.code then .error (.unexpectedCharacter (pos + 1))
        else patternEnd inClass (pos + 1 + h.width) hs
    else if isLineEnd g.code then .error (.unexpectedCharacter pos)
    else if g.code = 47 && !inClass then .ok ⟨pos + 1, gs⟩
    else if g.code = 91 && !inClass then patternEnd true (pos + 1) gs
    else if g.code = 93 then patternEnd false (pos + 1) gs
    else patternEnd inClass (pos + g.width) gs

/-- A flag of a regular expression. -/
def isFlag (c : Nat) : Bool := [100, 103, 105, 109, 115, 117, 118, 121].contains c

/-- The end of the regular expression whose opening slash is before the cursor. -/
def scanRegExp (c : Cursor) : Except Fault Cursor := do
  let c ← patternEnd false c.pos c.rest
  let stop := c.skip isFlag
  if stop.sees CodePoint.isIdentifierPart then throw (.unexpectedCharacter stop.pos)
  return stop

end ModuleSystem.Lexer
