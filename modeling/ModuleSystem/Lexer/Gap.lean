import ModuleSystem.Lexer.Cursor

/-!
# The space between tokens

Between two tokens stand white space, line terminators and comments.
-/

namespace ModuleSystem.Lexer

/-- Which notation a source is written in. JSON has no comments, only double quotes and fewer
escapes. -/
inductive Dialect where
  | script
  | json
deriving DecidableEq, Repr

/-- Where the reading of a gap stands. -/
inductive GapState where
  | space
  /-- In a comment that ends with its line. -/
  | lineComment (start : Nat)
  /-- In a comment that is closed. -/
  | blockComment (start : Nat)

/-- A comment is over: JSON objects to it. -/
def endComment (d : Dialect) (start stop : Nat) : Except Fault Unit :=
  match d with
  | .script => .ok ()
  | .json => .error (.commentInJson (.between start stop))

/-- The end of the gap that starts at a place, and whether a line terminator stands in it. -/
def skipGapFrom (d : Dialect) : GapState → Bool → Nat → List Glyph → Except Fault (Cursor × Bool)
  | .space, newline, pos, [] => .ok (⟨pos, []⟩, newline)
  | .lineComment start, newline, pos, [] => do
    endComment d start pos
    return (⟨pos, []⟩, newline)
  | .blockComment _, _, pos, [] => .error (.unterminatedComment pos)
  | .space, newline, pos, g :: gs =>
    if isLineEnd g.code then skipGapFrom d .space true (pos + g.width) gs
    else if CodePoint.isBlank g.code then skipGapFrom d .space newline (pos + g.width) gs
    else match gs with
      | h :: hs =>
        if g.code = 47 && h.code = 47 then skipGapFrom d (.lineComment pos) newline (pos + 2) hs
        else if g.code = 47 && h.code = 42 then
          skipGapFrom d (.blockComment pos) newline (pos + 2) hs
        else .ok (⟨pos, g :: h :: hs⟩, newline)
      | [] => .ok (⟨pos, [g]⟩, newline)
  | .lineComment start, newline, pos, g :: gs =>
    if isLineEnd g.code then do
      endComment d start pos
      skipGapFrom d .space true (pos + g.width) gs
    else skipGapFrom d (.lineComment start) newline (pos + g.width) gs
  | .blockComment start, newline, pos, g :: gs =>
    match gs with
    | h :: hs =>
      if g.code = 42 && h.code = 47 then do
        endComment d start (pos + 2)
        skipGapFrom d .space newline (pos + 2) hs
      else
        skipGapFrom d (.blockComment start) (newline || isLineEnd g.code) (pos + g.width) (h :: hs)
    | [] => skipGapFrom d (.blockComment start) (newline || isLineEnd g.code) (pos + g.width) []

/-- The end of the gap at a cursor, and whether a line terminator stands in it. -/
def skipGap (d : Dialect) (newline : Bool) (c : Cursor) : Except Fault (Cursor × Bool) :=
  skipGapFrom d .space newline c.pos c.rest

end ModuleSystem.Lexer
