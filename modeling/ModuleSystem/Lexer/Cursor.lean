import ModuleSystem.Fault

/-!
# Cursors

A cursor is a place in a source together with the glyphs that follow it.
-/

namespace ModuleSystem

/-- A place in a source. -/
structure Cursor where
  pos : Nat
  rest : List Glyph
deriving DecidableEq, Repr

namespace Cursor

/-- The code point at a cursor; none at the end. -/
def peek (c : Cursor) : Option Nat := c.rest.head?.map (·.code)

/-- The character at the cursor, if any, satisfies `p`. -/
def sees (c : Cursor) (p : Nat → Bool) : Bool := c.peek.any p

/-- The cursor one character further on; the end stays where it is. -/
def step (c : Cursor) : Cursor :=
  match c.rest with
  | [] => c
  | g :: gs => ⟨c.pos + g.width, gs⟩

/-- The cursor after the first `n` characters. -/
def steps : Nat → Cursor → Cursor
  | 0, c => c
  | n + 1, c => steps n c.step

/-- The first character at or after a place, among glyphs, for which `p` fails. -/
def skipFrom (p : Nat → Bool) : Nat → List Glyph → Cursor
  | pos, [] => ⟨pos, []⟩
  | pos, g :: gs => if p g.code then skipFrom p (pos + g.width) gs else ⟨pos, g :: gs⟩

/-- The cursor after all characters for which `p` holds. -/
def skip (p : Nat → Bool) (c : Cursor) : Cursor := skipFrom p c.pos c.rest

end Cursor

/-- The glyphs that make up the first `n` bytes. -/
def Glyph.takeBytes : Nat → List Glyph → List Glyph
  | _, [] => []
  | 0, _ => []
  | n, g :: gs => g :: takeBytes (n - g.width) gs

end ModuleSystem
