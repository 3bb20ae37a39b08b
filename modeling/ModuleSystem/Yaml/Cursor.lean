import ModuleSystem.Yaml.Source

/-!
# Places in YAML documents

A cursor is a place in a document with the characters that follow.  The end of a document shows as
the character with code zero, which stands nowhere else.  A fault in the bytes of the document is
noticed when characters are needed that it hides.
-/

namespace ModuleSystem

namespace Yaml

/-- A blank or a tab. -/
def isBlank (c : Nat) : Bool := c = 32 || c = 9

/-- A character that ends a line. -/
def isBreak (c : Nat) : Bool := c = 10 || c = 13 || c = 0x85 || c = 0x2028 || c = 0x2029

/-- The end of a line or of the document. -/
def isLineEnd (c : Nat) : Bool := isBreak c || c = 0

/-- White space, or the end of the document. -/
def isGap (c : Nat) : Bool := isBlank c || isLineEnd c

/-- A decimal digit. -/
def isDigit (c : Nat) : Bool := 48 ≤ c && c ≤ 57

/-- The characters of names. -/
def isNameChar (c : Nat) : Bool :=
  isDigit c || (65 ≤ c && c ≤ 90) || (97 ≤ c && c ≤ 122) || c = 95 || c = 45

/-- The value of a hexadecimal digit. -/
def hexValue? (c : Nat) : Option Nat :=
  if c < 128 then (Ascii.hexValue? c.toUInt8).map (·.toNat) else none

/-- The text of some characters. -/
def textOf (cs : List Nat) : Text := cs.flatMap Utf8.encode

end Yaml

/-- A place in a document. -/
structure YamlCursor where
  rest : List Nat
  /-- What is wrong with the bytes after the characters. -/
  fault : Option YamlEncodingFault := none
  mark : YamlMark := {}
  /-- A line has ended after the last character that is not blank. -/
  lineEnded : Bool := false
  /-- On lines that start before this place the first character does not count. -/
  hidden : Nat := 0
  /-- The number of characters of the document, which bounds every search. -/
  size : Nat := 0
deriving DecidableEq, Repr

namespace YamlCursor

open Yaml

/-- The beginning of a document. When the text itself begins with a byte order mark, the first
character of each line of the first chunk does not count. -/
def start (s : YamlSource) : YamlCursor where
  rest := s.chars
  fault := s.fault
  hidden := if s.chars.head? = some 0xFEFF then max 1 (s.first - 1) else 0
  size := s.chars.length

/-- The character `i` places further on. -/
def peek (c : YamlCursor) (i : Nat) : Nat := (c.rest.drop i).headD 0

/-- The character at a cursor. -/
def char (c : YamlCursor) : Nat := c.rest.headD 0

/-- The cursor, when `n` characters can be seen from it or the document ends before. -/
def need (n : Nat) (c : YamlCursor) : Except YamlError YamlCursor :=
  match c.fault with
  | none => .ok c
  | some fault => if (c.rest.take n).length < n then .error (.encoding fault) else .ok c

/-- The cursor after a character. -/
def step (c : YamlCursor) : YamlCursor :=
  match c.rest with
  | [] => c
  | b :: rest =>
    { c with
      rest
      mark := { c.mark with index := c.mark.index + 1, column := c.mark.column + 1 }
      lineEnded := c.lineEnded && isBlank b }

/-- The cursor after `n` characters. -/
def steps : Nat → YamlCursor → YamlCursor
  | 0, c => c
  | n + 1, c => steps n c.step

/-- The cursor after a line end of so many characters. -/
def newLine (c : YamlCursor) (width : Nat) : YamlCursor :=
  { c with
    rest := c.rest.drop width
    mark := ⟨c.mark.index + width, c.mark.line + 1, 0⟩
    lineEnded := true }

/-- A line end at a cursor as a text, and the cursor after it. All line ends but the Unicode
separators are the same. -/
def line (c : YamlCursor) : Text × YamlCursor :=
  match c.rest with
  | 13 :: 10 :: _ => ([10], c.newLine 2)
  | b :: _ =>
    if b = 0x2028 || b = 0x2029 then (Utf8.encode b, c.newLine 1)
    else if isBreak b then ([10], c.newLine 1)
    else ([], c)
  | [] => ([], c)

/-- The cursor after a line end. -/
def skipLine (c : YamlCursor) : YamlCursor := c.line.2

/-- Takes the characters for which `p` holds, none of which ends a line. -/
def span (p : Nat → Bool) (c : YamlCursor) : Except YamlError (List Nat × YamlCursor) := do
  let (cs, rest) := c.rest.span p
  let n := cs.length
  let mark := { c.mark with index := c.mark.index + n, column := c.mark.column + n }
  let c ← need 1 { c with rest, mark, lineEnded := c.lineEnded && cs.all isBlank }
  return (cs, c)

/-- The cursor after the characters for which `p` holds. -/
def skip (p : Nat → Bool) (c : YamlCursor) : Except YamlError YamlCursor := do
  let (_, c) ← c.span p
  return c

/-- The cursor after the rest of a line, with its line end. -/
def finishLine (c : YamlCursor) : Except YamlError YamlCursor := do
  if isBreak c.char then return (← c.need 2).skipLine else return c

/-- Three times the same character stands at the beginning of a line, with white space after it. -/
def isMark (c : YamlCursor) (char : Nat) : Bool :=
  c.mark.column = 0 && [char, char, char].isPrefixOf c.rest && isGap (c.peek 3)

/-- A mark between documents stands at the cursor. -/
def isDocumentMark (c : YamlCursor) : Bool := c.isMark 45 || c.isMark 46

/-! ### Comments -/

/-- The distance of a comment on a later line, when only white space comes before it. -/
def laterComment? (rest : List Nat) : Option Nat :=
  let isWhite (b : Nat) : Bool := isBlank b || b = 10 || b = 13
  match rest with
  | b :: more =>
    let n := ((more.take 512).takeWhile isWhite).length + 1
    if (b = 10 || b = 13) && n < 512 && (rest.drop n).head? = some 35 then some n else none
  | [] => none

/-- The cursor after `n` characters, some of which may end lines. -/
def pass : Nat → YamlCursor → YamlCursor
  | 0, c => c
  | 1, c => if isBreak c.char then c.skipLine else c.step
  | n + 2, c =>
    if c.char = 13 && c.peek 1 = 10 then pass n c.skipLine
    else pass (n + 1) (if isBreak c.char then c.skipLine else c.step)

/-- The cursor after a comment, and after those on the lines that follow, at most `fuel` of them. -/
def comments : Nat → YamlCursor → Except YamlError YamlCursor
  | 0, c => .ok c
  | fuel + 1, c => do
    let c ← c.skip fun b => !Yaml.isLineEnd b
    match laterComment? c.rest with
    | some n => comments fuel (c.pass n)
    | none => return c

/-- The cursor after a comment on the line of a token. -/
def lineComment (c : YamlCursor) : Except YamlError YamlCursor :=
  let blanks := ((c.rest.take 512).takeWhile isBlank).length
  if !c.lineEnded && blanks < 512 && c.peek blanks = 35 then c.skip fun b => !Yaml.isLineEnd b
  else .ok c

end YamlCursor

end ModuleSystem
