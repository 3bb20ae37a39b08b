import ModuleSystem.Text.Utf8

/-!
# Sources

A source is the text of one file together with the name it is shown under.  Positions are byte
offsets; `Source.locate` turns an offset into the line it stands on.
-/

namespace ModuleSystem

/-- Consecutive bytes of a source. -/
structure Range where
  start : Nat := 0
  len : Nat := 0
deriving DecidableEq, Repr, Inhabited

namespace Range

/-- The offset after the last byte. -/
def stop (r : Range) : Nat := r.start + r.len

/-- The range from one offset up to another. -/
def between (start stop : Nat) : Range := ⟨start, stop - start⟩

end Range

/-- The text of a file. -/
structure Source where
  /-- The canonical path of the file, which keys caches and is never shown. -/
  key : Text := []
  /-- The name of the file in messages. -/
  name : Text := []
  contents : Text
deriving DecidableEq, Repr

/-- The line that an offset stands on. -/
structure Line where
  /-- The number of lines before it. -/
  number : Nat
  /-- The offset of its first byte. -/
  start : Nat
  /-- The offset after its last byte, its terminator apart. -/
  stop : Nat
deriving DecidableEq, Repr

/-- The characters that end a line. -/
def isLineEnd (c : Nat) : Bool := c = 10 || c = 13 || c = 0x2028 || c = 0x2029

namespace Line

/-- Reads glyphs on, from the offset `pos`, in a line that is number `number` and starts at `start`;
`cr` tells that a carriage return came last. A line feed directly after a carriage return ends the
same line. The result is the number and the start of the last line. -/
def advance (pos number start : Nat) (cr : Bool) : List Glyph → Nat × Nat
  | [] => (number, start)
  | g :: gs =>
    let next := pos + g.width
    if g.code = 10 then advance next (if cr then number else number + 1) (pos + 1) false gs
    else if g.code = 13 then advance next (number + 1) (pos + 1) true gs
    else if g.code = 0x2028 || g.code = 0x2029 then advance next (number + 1) (pos + 3) false gs
    else advance next number start false gs

/-- The number of bytes before the first line terminator. -/
def lengthToEnd : List Glyph → Nat
  | [] => 0
  | g :: gs => if isLineEnd g.code then 0 else g.width + lengthToEnd gs

/-- The line that an offset of a text stands on. -/
def containing (contents : Text) (offset : Nat) : Line :=
  let (number, start) := advance 0 0 0 false (Utf8.glyphs (contents.take offset))
  ⟨number, start, offset + lengthToEnd (Utf8.glyphs (contents.drop offset))⟩

end Line

namespace Source

/-- The length of the string literal that starts at an offset, found by its closing quote alone;
zero when none is closed there. -/
def literalLength (quote : UInt8) : Nat → Text → Nat
  | _, [] => 0
  | n, [b] => if b = quote then n + 1 else 0
  | n, b :: c :: t =>
    if b = quote then n + 1
    else if b = 92 then literalLength quote (n + 2) t
    else literalLength quote (n + 1) (c :: t)

/-- The range of the string literal that starts at an offset; an empty one when none does. -/
def rangeOfString (s : Source) (start : Nat) : Range :=
  match s.contents.drop start with
  | [] => ⟨start, 0⟩
  | b :: t => if b = 34 || b = 39 then ⟨start, literalLength b 1 t⟩ else ⟨start, 0⟩

/-- The text of a range. -/
def textOf (s : Source) (r : Range) : Text := s.contents.slice r.start r.stop

end Source

end ModuleSystem
