import ModuleSystem.Proofs.Json.Letter
import ModuleSystem.Proofs.Lexer.Tiles
import ModuleSystem.Proofs.Text.CodeUnits

/-!
# The lexer — literals are read back

`Quoted.literal` writes the text of code units as a string literal.  Every character of the literal is
spelled as JSON has it (`Letter.ofCode`), so the lexer reads the literal as one string in both dialects, and
finds the code units again: `Quoted.literal_lexes`.  Surrogates without partner are no exception, because
code points are formed from pairs only and fall apart into the same pairs.
-/

namespace ModuleSystem

open Utf8 Lexer

namespace Lexer

/-- A text that is read as one lexeme is one token, and the end follows. -/
theorem produces_alone {s : Source} {d : Dialect} {t : Text} {l : Lexeme}
    (hgap : skipGap d true ⟨0, glyphs t⟩ = .ok (⟨0, glyphs t⟩, true)) (hscan : scanLexeme d ⟨0, glyphs t⟩ = .ok l)
    (hcursor : l.cursor = ⟨t.length, []⟩) (hkind : l.kind ≠ .endOfFile ∧ l.kind ≠ .invalid) :
    ∃ token last, Produces (start { s with contents := t } d) [token, last] none ∧ token.kind = l.kind ∧
      token.start = 0 ∧ token.stop = t.length ∧ token.units = l.units ∧ token.name = l.name ∧
      last.kind = .endOfFile := by
  obtain ⟨lx, hlx, htoken, hrest⟩ : ∃ lx, start { s with contents := t } d = .ok lx ∧
      (lx.token.kind = l.kind ∧ lx.token.start = 0 ∧ lx.token.stop = t.length ∧ lx.token.units = l.units ∧
        lx.token.name = l.name) ∧ lx.cursor.rest = [] := by
    refine ⟨_, next_eq (by simp) hgap hscan, ⟨rfl, rfl, ?_, rfl, rfl⟩, ?_⟩
    all_goals simp [onto, hcursor]
  obtain ⟨htkind, hstart, hstop, hunits, hname⟩ := htoken
  obtain ⟨lx', hlx', hend⟩ : ∃ lx', lx.next = .ok lx' ∧ lx'.token.kind = .endOfFile := by
    have hnone : lx.cursor = ⟨lx.cursor.pos, []⟩ := by rw [← hrest]
    exact ⟨_, next_eq (by rw [htkind]; exact hkind.2) (by rw [hnone]; rfl) rfl, rfl⟩
  refine ⟨lx.token, lx'.token, ?_, htkind, hstart, hstop, hunits, hname, hend⟩
  rw [hlx]
  refine .more (by simp [Token.isLast, htkind, hkind]) ?_
  rw [hlx']
  exact .last (by simp [Token.isLast, hend])

end Lexer

namespace Json

/-- Another digit multiplies the value by sixteen. -/
theorem hexFrom_append (n : Nat) (digits : Text) (b : UInt8) :
    hexFrom n (digits ++ [b]) = hexFrom n digits * 16 + (CodePoint.hexValue? b.toNat).getD 0 :=
  List.foldl_append

/-- Hexadecimal digits are read as the number that they are written for. -/
theorem hexFrom_digits (width c : Nat) : hexFrom 0 (Hex.digits Hex.upperDigit width c) = c % 16 ^ width := by
  have hdigit : ∀ k < 16, CodePoint.hexValue? (Hex.upperDigit k).toNat = some k := by decide
  induction width generalizing c with
  | zero => rw [Nat.pow_zero, Nat.mod_one]; rfl
  | succ width ih =>
      rw [Hex.digits, hexFrom_append, ih, hdigit _ (Nat.mod_lt _ (by decide)), Nat.pow_succ', Nat.mod_mul]
      simp only [Option.getD_some]
      omega

/-- As many hexadecimal digits are written as are asked for. -/
theorem upperDigits_isHex (width c : Nat) :
    (Hex.digits Hex.upperDigit width c).length = width ∧
      ∀ b ∈ Hex.digits Hex.upperDigit width c, CodePoint.isHex b.toNat = true := by
  have hdigit : ∀ k < 16, CodePoint.isHex (Hex.upperDigit k).toNat = true := by decide
  induction width generalizing c with
  | zero => exact ⟨rfl, by simp [Hex.digits]⟩
  | succ width ih =>
      refine ⟨by rw [Hex.digits, List.length_append, (ih _).1]; rfl, fun b hb => ?_⟩
      obtain hb | hb := List.mem_append.1 hb
      · exact (ih _).2 b hb
      · rw [List.mem_singleton.1 hb]
        exact hdigit _ (Nat.mod_lt _ (by decide))

namespace Letter

/-- The spelling of a code point in a literal. -/
def ofCode (c : Nat) : Letter :=
  if Quoted.isPlain c then plain c
  else match Quoted.literalEscape? c with
    | some letter => short letter
    | none => long (Hex.digits Hex.upperDigit 4 c)

/-- The letter of a code point is what a literal has for it. -/
theorem text_ofCode (c : Nat) : (ofCode c).text = Quoted.literalGlyph ⟨c, encodeRaw c⟩ := by
  have hescape : ("\\u" : Text) = [92, 117] := by decide
  unfold ofCode Quoted.literalGlyph
  split
  · rfl
  · cases Quoted.literalEscape? c with
    | some letter => rfl
    | none => dsimp only; rw [hescape]; rfl

/-- An escape of two characters stands for the character it is written for. -/
theorem lookup_literalEscape? {c : Nat} {b : UInt8} (h : Quoted.literalEscape? c = some b) :
    c ≤ 0xFFFF ∧ shortEscapes.lookup b = some c.toUInt16 := by
  have hall : ∀ p ∈ [((8 : Nat), (98 : UInt8)), (12, 102), (10, 110), (13, 114), (9, 116), (92, 92), (34, 34)],
      p.1 ≤ 0xFFFF ∧ shortEscapes.lookup p.2 = some p.1.toUInt16 := by
    decide
  obtain ⟨l₁, l₂, hl, -⟩ := List.lookup_eq_some_iff.1 h
  exact hall (c, b) (by rw [hl]; simp)

/-- Only code points of one unit are written with four digits. -/
theorem le_of_not_isPlain {c : Nat} (h : ¬ Quoted.isPlain c = true) : c ≤ 0xFFFF := by
  by_contra hc
  refine h ?_
  simp only [Quoted.isPlain, if_neg (show ¬ c ≤ 0x7E by omega), isSurrogate, Bool.and_eq_true, bne_iff_ne,
    Bool.not_eq_true', Bool.and_eq_false_iff, decide_eq_false_iff_not]
  omega

/-- The letters of code points are letters of JSON too. -/
theorem isJson_ofCode {c : Nat} (h : c ≤ 0x10FFFF) : (ofCode c).IsJson := by
  unfold ofCode
  split
  · rename_i hplain
    simp only [Quoted.isPlain, isSurrogate] at hplain
    simp only [IsJson, isSurrogate]
    split at hplain <;> simp_all <;> omega
  · cases hescape : Quoted.literalEscape? c with
    | some letter => exact Option.isSome_iff_exists.2 ⟨_, (lookup_literalEscape? hescape).2⟩
    | none => exact upperDigits_isHex 4 c

/-- The letter of a code point stands for its code units. -/
theorem units_ofCode (c : Nat) : (ofCode c).units = Utf16.units c := by
  unfold ofCode
  split
  · rfl
  · rename_i hplain
    have hle := le_of_not_isPlain hplain
    cases hescape : Quoted.literalEscape? c with
    | some letter => simp [units, (lookup_literalEscape? hescape).2, Utf16.units, hle]
    | none =>
        have hvalue : hexFrom 0 (Hex.digits Hex.upperDigit 4 c) = c := by
          rw [hexFrom_digits, Nat.mod_eq_of_lt (by omega)]
        simp [units, hvalue, Utf16.units, hle]

end Letter

/-- A JSON string alone is one token, in both dialects. -/
theorem produces_quoted {ls : List Letter} (h : ∀ l ∈ ls, l.IsJson) (s : Source) (d : Dialect) :
    ∃ string last, Produces (start { s with contents := quoted ls } d) [string, last] none ∧
      string.kind = .string ∧ string.start = 0 ∧ string.stop = (quoted ls).length ∧
      string.units = ls.flatMap Letter.units ∧ last.kind = .endOfFile := by
  have hscan := scanLexeme_string h d 0 []
  rw [List.append_nil, Nat.zero_add] at hscan
  have hgap : skipGap d true ⟨0, glyphs (quoted ls)⟩ = .ok (⟨0, glyphs (quoted ls)⟩, true) := by
    have hquote : ∀ g ∈ (glyphs (quoted ls)).head?,
        isLineEnd g.code = false ∧ CodePoint.isBlank g.code = false ∧ g.code ≠ 47 := by
      rw [glyphs_quoted h]
      rintro _ ⟨⟩
      decide
    exact skipGap_blanks d true 0 0 hquote
  obtain ⟨string, last, hproduces, hkind, hstart, hstop, hunits, -, hlast⟩ :=
    produces_alone (s := s) hgap hscan rfl ⟨by simp, by simp⟩
  exact ⟨string, last, hproduces, hkind, hstart, hstop, hunits, hlast⟩

end Json

namespace Quoted

open Json

/-- The literal of code units is a JSON string with one spelling for each code point. -/
theorem literal_toText (us : List UInt16) :
    literal (Utf16.toText us) = Json.quoted ((Utf16.codePoints us).map Letter.ofCode) := by
  rw [literal, Utf16.toText, Utf16.glyphs_encodeRaws Utf16.codePoints_le, Json.quoted, List.flatMap_map,
    List.flatMap_map]
  simp only [Letter.text_ofCode]

theorem isJson_codePoints (us : List UInt16) : ∀ l ∈ (Utf16.codePoints us).map Letter.ofCode, l.IsJson := by
  intro l hl
  obtain ⟨c, hc, rfl⟩ := List.mem_map.1 hl
  exact Letter.isJson_ofCode (Utf16.codePoints_le c hc)

/-- The letters of the code points of a string stand for the string. -/
theorem units_codePoints (us : List UInt16) :
    ((Utf16.codePoints us).map Letter.ofCode).flatMap Letter.units = us := by
  rw [List.flatMap_map]
  simp only [Letter.units_ofCode, Utf16.flatMap_units_codePoints]

/-- The literal of any code units is read as one string, which is the whole text and stands for these code
units. Nothing is objected to, the end is all that follows, and no line ends in the literal. -/
theorem literal_lexes (us : List UInt16) (s : Source) (d : Dialect) : ∃ string last,
    Produces (start { s with contents := literal (Utf16.toText us) } d) [string, last] none ∧
      string.kind = .string ∧ string.start = 0 ∧ string.stop = (literal (Utf16.toText us)).length ∧
      string.units = us ∧ last.kind = .endOfFile ∧ Text.Inline (literal (Utf16.toText us)) := by
  obtain ⟨string, last, hproduces, hkind, hstart, hstop, hvalue, hlast⟩ := produces_quoted (isJson_codePoints us) s d
  rw [← literal_toText] at hproduces hstop
  exact ⟨string, last, hproduces, hkind, hstart, hstop, hvalue.trans (units_codePoints us), hlast, literal_toText_inline us⟩

end Quoted

end ModuleSystem
