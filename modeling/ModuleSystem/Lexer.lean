import ModuleSystem.Lexer.Literal
import ModuleSystem.Lexer.Name
import ModuleSystem.Lexer.Number

/-!
# The lexer

A lexer stands on a token of a source and moves on one token at a time, because two kinds of
tokens depend on what the reader of the tokens knows: whether a slash opens a regular expression
(`Lexer.asRegExp`), and whether a closing brace ends a template substitution
(`Lexer.asTemplate`).
-/

namespace ModuleSystem

/-- A place in the token sequence of a source. -/
structure Lexer where
  source : Source
  dialect : Lexer.Dialect
  /-- The current token. -/
  token : Token
  /-- The place after the current token. -/
  cursor : Cursor
deriving Repr

namespace Lexer

/-- What a token is, besides its place. -/
structure Lexeme where
  kind : TokenKind
  cursor : Cursor
  units : List UInt16 := []
  name : Text := []

/-- The punctuation that glyphs begin with, in its longest spelling. A question mark before a point
stands alone when a digit, or nothing, follows. -/
def punctuator? (gs : List Glyph) : Option (Text × TokenKind) :=
  let codes := (gs.take 4).map (·.code)
  TokenKind.punctuators.find? fun (spelling, kind) =>
    (spelling.map (·.toNat)).isPrefixOf codes
      && !(kind == .questionDot
        && ((codes.drop 2).head?.all fun c => CodePoint.isDigit c))

/-- Reads the token at a cursor, with no gap before it. -/
def scanLexeme (d : Dialect) (c : Cursor) : Except Fault Lexeme :=
  match c.rest with
  | [] => .ok { kind := .endOfFile, cursor := c }
  | g :: gs =>
    let next : Cursor := ⟨c.pos + g.width, gs⟩
    if g.code = 35 then
      if c.pos = 0 && next.peek = some 33 then
        let stop := c.skip fun c => !isLineEnd c
        .ok { kind := .hashbang, cursor := stop
              name := Utf8.bytesOf (Glyph.takeBytes (stop.pos - c.pos) c.rest) }
      else do
        let (kind, name, stop) ← scanPrivateName d c
        return { kind, name, cursor := stop }
    else if g.code = 34 || g.code = 39 || g.code = 96 then do
      let (kind, units, stop) ← scanQuoted d g.code false c.pos next
      return { kind, units, cursor := stop }
    else if CodePoint.isDigit g.code || (g.code = 46 && next.sees CodePoint.isDigit) then do
      let (kind, stop) ← scanNumber c.pos g.code next
      return { kind, cursor := stop }
    else if CodePoint.isIdentifierStart g.code || g.code = 92 then do
      let (kind, name, stop) ← scanName d c
      return { kind, name, cursor := stop }
    else match punctuator? (g :: gs) with
      | some (spelling, kind) => .ok { kind, cursor := c.steps spelling.length }
      | none => .ok { kind := .invalid, cursor := next }

/-- The lexer on the token that was read from a place. -/
def onto (lx : Lexer) (start : Cursor) (newline : Bool) (prevStop : Nat) (l : Lexeme) : Lexer :=
  { lx with
    cursor := l.cursor
    token :=
      { kind := l.kind
        start := start.pos
        stop := l.cursor.pos
        prevStop
        newlineBefore := newline
        raw := Utf8.bytesOf (Glyph.takeBytes (l.cursor.pos - start.pos) start.rest)
        units := l.units
        name := l.name } }

/-- Moves on to the next token. A character that starts no token is never left: the lexer stays
behind it with an empty token of the same kind. -/
def next (lx : Lexer) : Except Fault Lexer := do
  let prev := lx.token.stop
  if lx.token.kind = .invalid then
    return lx.onto ⟨prev, []⟩ false prev { kind := .invalid, cursor := ⟨prev, lx.cursor.rest⟩ }
  let (start, newline) ← skipGap lx.dialect (prev = 0) lx.cursor
  let l ← scanLexeme lx.dialect start
  return lx.onto start newline prev l

/-- The lexer on the first token of a source. -/
def start (s : Source) (d : Dialect) : Except Fault Lexer :=
  next
    { source := s
      dialect := d
      token :=
        { kind := .endOfFile, start := 0, stop := 0, prevStop := 0, newlineBefore := true
          raw := [] }
      cursor := ⟨0, Utf8.glyphs s.contents⟩ }

/-- The character of a glyph of one byte. -/
def asciiGlyph (b : UInt8) : Glyph := ⟨b.toNat, [b]⟩

/-- Reads the current token, a slash with or without an equals sign, as the opening of a regular
expression. -/
def asRegExp (lx : Lexer) : Except Fault Lexer := do
  let c : Cursor :=
    if lx.token.kind = .slashAssign then ⟨lx.token.start + 1, asciiGlyph 61 :: lx.cursor.rest⟩
    else lx.cursor
  let stop ← scanRegExp c
  return lx.onto ⟨lx.token.start, asciiGlyph 47 :: c.rest⟩ lx.token.newlineBefore lx.token.prevStop
    { kind := .regExp, cursor := stop }

/-- Reads the current token, a closing brace, as the end of a substitution, so that the template
goes on. -/
def asTemplate (lx : Lexer) : Except Fault Lexer := do
  let t := lx.token
  if t.kind ≠ .closeBrace then throw (.expected TokenKind.closeBrace.description t)
  let (kind, units, stop) ← scanQuoted lx.dialect 96 true t.start lx.cursor
  return lx.onto ⟨t.start, asciiGlyph 125 :: lx.cursor.rest⟩ (t.start = 0) t.prevStop
    { kind, units, cursor := stop }

/-- The current token must be of a kind; moves on. -/
def expect (lx : Lexer) (k : TokenKind) : Except Fault Lexer :=
  if lx.token.kind = k then lx.next else .error (.expected k.description lx.token)

/-- The current token must be a word that is not reserved; moves on. -/
def expectWord (lx : Lexer) (word : Text) : Except Fault Lexer :=
  if lx.token.isWord word then lx.next else .error (.expected (Quoted.display word) lx.token)

/-- A semicolon must stand here, unless the line, the block or the source ends. -/
def expectSemicolon (lx : Lexer) : Except Fault Lexer :=
  let k := lx.token.kind
  if k = .semicolon || (!lx.token.newlineBefore && k ≠ .closeBrace && k ≠ .endOfFile) then
    lx.expect .semicolon
  else .ok lx

end Lexer

end ModuleSystem
