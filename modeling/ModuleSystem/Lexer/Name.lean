import ModuleSystem.Lexer.Escape

/-!
# Names

Identifiers, reserved words and private names.  A name with escapes is first measured and then
decoded, and must be an identifier after decoding too.
-/

namespace ModuleSystem.Lexer

/-- Where the measuring of a name with escapes stands. -/
inductive NameState where
  | plain
  /-- After a backslash. -/
  | backslash
  /-- After a backslash and a `u`. -/
  | letter
  /-- That many digits of four are missing. -/
  | fixed (missing : Nat)
  /-- Between braces. -/
  | braces

/-- The end of a name with escapes. -/
def escapedNameEnd : NameState → Nat → List Glyph → Except Fault Cursor
  | .plain, pos, [] => .ok ⟨pos, []⟩
  | _, pos, [] => .error (.unexpectedCharacter pos)
  | .plain, pos, g :: gs =>
    if g.code = 92 then escapedNameEnd .backslash (pos + 1) gs
    else if CodePoint.isIdentifierPart g.code then escapedNameEnd .plain (pos + g.width) gs
    else .ok ⟨pos, g :: gs⟩
  | .backslash, pos, g :: gs =>
    if g.code = 117 then escapedNameEnd .letter (pos + 1) gs
    else .error (.unexpectedCharacter pos)
  | .letter, pos, g :: gs =>
    if g.code = 123 then escapedNameEnd .braces (pos + 1) gs
    else if CodePoint.isHex g.code then escapedNameEnd (.fixed 3) (pos + 1) gs
    else .error (.unexpectedCharacter pos)
  | .fixed missing, pos, g :: gs =>
    if CodePoint.isHex g.code then
      escapedNameEnd (if missing ≤ 1 then .plain else .fixed (missing - 1)) (pos + 1) gs
    else .error (.unexpectedCharacter pos)
  | .braces, pos, g :: gs =>
    if g.code = 125 then escapedNameEnd .plain (pos + 1) gs
    else if CodePoint.isHex g.code then escapedNameEnd .braces (pos + 1) gs
    else .error (.unexpectedCharacter pos)

/-- Reads the name whose glyphs, from its first on, are `whole` and start at `start`, when the
cursor is on its first backslash. `sign` is the number of bytes before the identifier proper. -/
def scanEscapedName (d : Dialect) (start sign : Nat) (whole : List Glyph) (c : Cursor) :
    Except Fault (Text × Cursor) := do
  let c ← escapedNameEnd .plain c.pos c.rest
  let units ← decodeUnits d start (Glyph.takeBytes (c.pos - start) whole)
  let name := Utf16.toTextRepaired units
  unless isIdentifier (name.drop sign) do throw (.invalidIdentifier (.between start c.pos) name)
  return (name, c)

/-- The kind of a name without escapes. -/
def nameKind (name : Text) : TokenKind := (TokenKind.keywords.lookup name).getD .identifier

/-- The kind of a name with escapes. -/
def escapedNameKind (name : Text) : TokenKind :=
  if (TokenKind.keywords.lookup name).isSome then .escapedKeyword else .identifier

/-- Reads the identifier or reserved word at a cursor. -/
def scanName (d : Dialect) (c : Cursor) : Except Fault (TokenKind × Text × Cursor) := do
  let stop := c.skip CodePoint.isIdentifierPart
  if stop.peek = some 92 then
    let (name, stop) ← scanEscapedName d c.pos 0 c.rest stop
    return (escapedNameKind name, name, stop)
  else
    let name := Utf8.bytesOf (Glyph.takeBytes (stop.pos - c.pos) c.rest)
    return (nameKind name, name, stop)

/-- Reads the private name at a cursor, which is on its sign. -/
def scanPrivateName (d : Dialect) (c : Cursor) : Except Fault (TokenKind × Text × Cursor) := do
  let first := c.step
  unless first.sees fun g => CodePoint.isIdentifierStart g || g = 92 do
    throw (.unexpectedCharacter first.pos)
  let stop := first.skip CodePoint.isIdentifierPart
  if stop.peek = some 92 then
    let (name, stop) ← scanEscapedName d c.pos 1 c.rest stop
    return (.privateName, name, stop)
  else
    return (.privateName, Utf8.bytesOf (Glyph.takeBytes (stop.pos - c.pos) c.rest), stop)

end ModuleSystem.Lexer
