import ModuleSystem.Source

/-!
# Edits

Compiled code is its source with a list of edits applied.  An edit keeps the line terminators of
what it replaces, so that every line of the source keeps its number.
-/

namespace ModuleSystem

/-- Edits that start at the same place are applied in this order. -/
inductive EditRank where
  | close
  | insert
  | replace
deriving DecidableEq, Repr

namespace EditRank

/-- The place of a rank in the order. -/
def toNat : EditRank → Nat
  | .close => 0
  | .insert => 1
  | .replace => 2

end EditRank

/-- Replaces the bytes from `start` up to `stop`. -/
structure Edit where
  start : Nat
  stop : Nat
  text : Text
  rank : EditRank
deriving DecidableEq, Repr

namespace Edit

/-- Replaces a range. -/
def replace (r : Range) (text : Text) : Edit := ⟨r.start, r.stop, text, .replace⟩

/-- Removes a range. -/
def remove (r : Range) : Edit := replace r []

/-- Inserts a text. -/
def insert (start : Nat) (text : Text) (rank : EditRank) : Edit := ⟨start, start, text, rank⟩

/-- The order in which edits are applied: by place, then by rank. -/
def le (a b : Edit) : Bool :=
  a.start < b.start || (a.start = b.start && a.rank.toNat ≤ b.rank.toNat)

/-- The edits in the order in which they are applied. -/
def sort (es : List Edit) : List Edit := es.mergeSort le

/-- The line terminators of a text. -/
def lineBreaks (t : Text) : Text :=
  Utf8.bytesOf ((Utf8.glyphs t).filter fun g => isLineEnd g.code)

/-- Applies sorted edits to the part of a text from `pos` on. An edit that starts before the end of
an earlier one is left out. -/
def applyFrom (contents : Text) : Nat → List Edit → Text
  | pos, [] => contents.drop pos
  | pos, e :: es =>
    if e.start < pos then applyFrom contents pos es
    else
      contents.slice pos e.start ++ e.text ++ lineBreaks (contents.slice e.start e.stop)
        ++ applyFrom contents e.stop es

/-- Applies sorted edits to a text. -/
def apply (contents : Text) (es : List Edit) : Text := applyFrom contents 0 es

end Edit

end ModuleSystem
