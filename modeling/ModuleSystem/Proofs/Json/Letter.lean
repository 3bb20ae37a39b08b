import Mathlib.Algebra.Group.Nat.Defs
import ModuleSystem.Proofs.Lexer.Ascii

/-!
# JSON — strings

A JSON string is a sequence of characters, each of which is written as it is or as one of two kinds of
escape.  The lexer reads every such string, as a JSON string and as a script string alike
(`scanLexeme_string`), and it finds the code units that the spelling stands for.

The second half of a surrogate pair can be written apart from the first, so what a spelling stands for is
told by code units.
-/

namespace ModuleSystem

open Utf8 Lexer

namespace Json

/-! ### Spellings -/

/-- The letters that follow a backslash, and what they stand for. -/
def shortEscapes : List (UInt8 × UInt16) :=
  [(34, 34), (92, 92), (47, 47), (98, 8), (102, 12), (110, 10), (114, 13), (116, 9)]

/-- One character of a JSON string as it is written. -/
inductive Letter where
  /-- A character that stands for itself. -/
  | plain (code : Nat)
  /-- A backslash and a letter. -/
  | short (letter : UInt8)
  /-- A backslash, a `u` and four digits. -/
  | long (digits : Text)
deriving DecidableEq, Repr

/-- The number that hexadecimal digits go on to, after digits that make up `n`. -/
def hexFrom (n : Nat) (digits : Text) : Nat :=
  digits.foldl (fun n b => n * 16 + (CodePoint.hexValue? b.toNat).getD 0) n

namespace Letter

def text : Letter → Text
  | plain c => encodeRaw c
  | short b => [92, b]
  | long digits => 92 :: 117 :: digits

/-- The code units that it stands for. -/
def units : Letter → List UInt16
  | plain c => Utf16.units c
  | short b => (shortEscapes.lookup b).toList
  | long digits => [(hexFrom 0 digits).toUInt16]

/-- It can stand in a JSON string. -/
def IsJson : Letter → Prop
  | plain c => 0x20 ≤ c ∧ c ≤ 0x10FFFF ∧ isSurrogate c = false ∧ c ≠ 34 ∧ c ≠ 92
  | short b => (shortEscapes.lookup b).isSome = true
  | long digits => digits.length = 4 ∧ ∀ b ∈ digits, CodePoint.isHex b.toNat = true

instance : DecidablePred IsJson
  | plain c => inferInstanceAs (Decidable (0x20 ≤ c ∧ c ≤ 0x10FFFF ∧ isSurrogate c = false ∧ c ≠ 34 ∧ c ≠ 92))
  | short b => inferInstanceAs (Decidable ((shortEscapes.lookup b).isSome = true))
  | long digits => inferInstanceAs (Decidable (digits.length = 4 ∧ ∀ b ∈ digits, CodePoint.isHex b.toNat = true))

/-- The characters that it is written with. -/
def glyphs : Letter → List Glyph
  | plain c => [⟨c, encodeRaw c⟩]
  | short b => ascii [92, b]
  | long digits => ascii (92 :: 117 :: digits)

/-- A short escape is one of those that there are. -/
theorem mem_of_short {b : UInt8} (h : (short b).IsJson) : b ∈ shortEscapes.map (·.1) := by
  obtain ⟨u, hu⟩ := Option.isSome_iff_exists.1 h
  obtain ⟨l₁, l₂, hl, -⟩ := List.lookup_eq_some_iff.1 hu
  rw [hl]
  simp

theorem lt_of_isHex {digits : Text} (h : ∀ b ∈ digits, CodePoint.isHex b.toNat = true) :
    ∀ b ∈ digits, b.toNat < 128 := fun b hb => (CodePoint.ascii_of_isHex (h b hb)).2

variable {l : Letter} {ls : List Letter} {d : Dialect} {pos : Nat} {rest : List Glyph}

/-- A letter is ASCII unless it stands for itself. -/
theorem ascii_of_isJson (h : l.IsJson) (hplain : ∀ c, l ≠ plain c) : ∀ b ∈ l.text, b.toNat < 128 := by
  cases l with
  | plain c => exact absurd rfl (hplain c)
  | short b =>
      have hall : ∀ b ∈ shortEscapes.map (·.1), b.toNat < 128 := by decide
      exact List.forall_mem_cons.2 ⟨by decide, List.forall_mem_singleton.2 (hall b (mem_of_short h))⟩
  | long digits =>
      exact List.forall_mem_cons.2 ⟨by decide, List.forall_mem_cons.2 ⟨by decide, lt_of_isHex h.2⟩⟩

/-- The characters of a letter spell its text. -/
theorem bytesOf_glyphs : bytesOf l.glyphs = l.text := by
  cases l with
  | plain c => simp [glyphs, text]
  | short b | long digits => exact bytesOf_ascii _

/-- The characters of a letter are read from its bytes, and are valid. -/
theorem genuine_of_isJson (h : l.IsJson) : ∀ g ∈ l.glyphs, g.Genuine ∧ isInvalid g = false := by
  cases l with
  | plain c => exact List.forall_mem_singleton.2 (glyphs_encodeRaw h.2.1 h.2.2.1)
  | short b => exact genuine_ascii (ascii_of_isJson h (by simp))
  | long digits => exact genuine_ascii (ascii_of_isJson h (by simp))

/-! ### Reading a spelling -/

theorem hexFrom_cons (n : Nat) (b : UInt8) (digits : Text) :
    hexFrom n (b :: digits) = hexFrom (n * 16 + (CodePoint.hexValue? b.toNat).getD 0) digits := rfl

/-- Hexadecimal digits are read as their value. -/
theorem readFixed_ascii {digits : Text} (h : ∀ b ∈ digits, CodePoint.isHex b.toNat = true) (n : Nat) :
    readFixed pos n digits.length (ascii digits ++ rest) = .ok (hexFrom n digits) := by
  induction digits generalizing pos n with
  | nil => rfl
  | cons b digits ih =>
      obtain ⟨hb, hdigits⟩ := List.forall_mem_cons.1 h
      obtain ⟨v, hv⟩ := Option.isSome_iff_exists.1 hb
      rw [List.length_cons, ascii_cons, List.cons_append, readFixed, asciiGlyph_code, hv, hexFrom_cons, hv]
      exact ih hdigits _

theorem hexValue?_lt {c v : Nat} (h : CodePoint.hexValue? c = some v) : v < 16 := by
  unfold CodePoint.hexValue? at h
  split_ifs at h <;> simp_all <;> omega

/-- The value of some digits is bounded by their number. -/
theorem hexFrom_lt (n : Nat) (digits : Text) : hexFrom n digits < (n + 1) * 16 ^ digits.length := by
  induction digits generalizing n with
  | nil => simp [hexFrom]
  | cons b digits ih =>
      have hv : (CodePoint.hexValue? b.toNat).getD 0 < 16 := by
        cases h : CodePoint.hexValue? b.toNat with
        | none => decide
        | some v => exact hexValue?_lt h
      calc hexFrom n (b :: digits)
          < (n * 16 + (CodePoint.hexValue? b.toNat).getD 0 + 1) * 16 ^ digits.length := ih _
        _ ≤ ((n + 1) * 16) * 16 ^ digits.length := Nat.mul_le_mul_right _ (by omega)
        _ = (n + 1) * 16 ^ (digits.length + 1) := by rw [Nat.pow_succ', Nat.mul_assoc]

/-- The escapes that both dialects have. -/
theorem readEscape_short {b : UInt8} (h : (short b).IsJson) :
    readEscape d pos (asciiGlyph b :: rest) = .ok ((short b).units, 1) := by
  have hcases := mem_of_short h
  simp only [shortEscapes, List.map_cons, List.map_nil, List.mem_cons, List.not_mem_nil, or_false] at hcases
  obtain rfl | rfl | rfl | rfl | rfl | rfl | rfl | rfl := hcases <;> rfl

/-- An escape of four digits is read as its code unit. -/
theorem readEscape_long {digits : Text} (h : (long digits).IsJson) :
    readEscape d pos (ascii (117 :: digits) ++ rest) = .ok ((long digits).units, 5) := by
  obtain ⟨b, digits', rfl⟩ : ∃ b digits', digits = b :: digits' :=
    List.exists_cons_of_ne_nil (by rintro rfl; cases h.1)
  have hfixed := @readFixed_ascii (pos + 2) rest _ h.2 0
  have hvalue : hexFrom 0 (b :: digits') < 65536 := by
    have := hexFrom_lt 0 (b :: digits')
    rwa [h.1] at this
  -- a brace is no digit
  have hbrace : b.toNat ≠ 123 := fun hcode => by
    have hb := h.2 b List.mem_cons_self
    rw [hcode] at hb
    cases hb
  rw [h.1, ascii_cons, List.cons_append] at hfixed
  rw [ascii_cons, ascii_cons, List.cons_append, List.cons_append, readEscape.eq_def]
  simp only [asciiGlyph_code]
  rw [show controlEscape? (117 : UInt8).toNat = none from rfl]
  simp only [show (117 : UInt8).toNat = 117 from rfl, Nat.reduceEqDiff, reduceIte,
    show (octalValue? 117).isSome = false from rfl, Bool.false_eq_true, hbrace]
  rw [hfixed, ok_bind, Utf16.units, if_pos (by omega)]
  rfl

/-- Characters that are read already are skipped. -/
theorem decodeFrom_skip (gs : List Glyph) :
    decodeFrom d gs.length pos (gs ++ rest) = decodeFrom d 0 (pos + (bytesOf gs).length) rest := by
  induction gs generalizing pos with
  | nil => rfl
  | cons g gs ih =>
      rw [List.length_cons, List.cons_append, decodeFrom, ih, bytesOf_cons, List.length_append, Glyph.width,
        Nat.add_assoc]

/-- What is read as a unit is a part of its own. -/
theorem decodeFrom_append {gs : List Glyph} (hne : gs ≠ []) {us : List UInt16}
    (hread : ∀ g hs, gs = g :: hs → readUnit d pos g (hs ++ rest) = .ok (us, hs.length)) :
    decodeFrom d 0 pos (gs ++ rest) = (do return us ++ (← decodeFrom d 0 (pos + (bytesOf gs).length) rest)) := by
  obtain ⟨g, hs, rfl⟩ := List.exists_cons_of_ne_nil hne
  rw [List.cons_append, decodeFrom, hread g hs rfl, ok_bind]
  dsimp only
  rw [decodeFrom_skip, bytesOf_cons, List.length_append, Glyph.width, Nat.add_assoc]

/-- A character is read as what it stands for, whatever follows. -/
theorem decodeFrom_glyphs (h : l.IsJson) : decodeFrom d 0 pos (l.glyphs ++ rest) =
    (do return l.units ++ (← decodeFrom d 0 (pos + l.text.length) rest)) := by
  rw [← bytesOf_glyphs]
  refine decodeFrom_append (by cases l <;> exact List.cons_ne_nil _ _) ?_
  rintro g gs hg
  cases l with
  | plain c =>
      obtain ⟨rfl, rfl⟩ := List.cons_eq_cons.1 hg
      obtain ⟨hcontrol, -, -, -, hslash⟩ := h
      rw [readUnit, if_neg hslash, if_neg (by dsimp only; omega)]
      rfl
  | short b =>
      obtain ⟨rfl, rfl⟩ := List.cons_eq_cons.1 hg
      exact readEscape_short h
  | long digits =>
      obtain ⟨rfl, rfl⟩ := List.cons_eq_cons.1 hg
      refine (readEscape_long h).trans ?_
      rw [List.length_map, List.length_cons, h.1]

/-- The value of some letters is that of each, one after the other. -/
theorem decodeUnits_glyphs (h : ∀ l ∈ ls, l.IsJson) :
    decodeUnits d pos (ls.flatMap glyphs) = .ok (ls.flatMap units) := by
  unfold decodeUnits
  induction ls generalizing pos with
  | nil => rfl
  | cons l ls ih =>
      obtain ⟨hl, hls⟩ := List.forall_mem_cons.1 h
      rw [List.flatMap_cons, decodeFrom_glyphs hl, ih hls]
      rfl

/-! ### The end of a string -/

/-- A character that stands for itself does not end a string. -/
theorem quotedEnd_plain {g : Glyph} (h : 0x20 ≤ g.code) (hquote : g.code ≠ 34) (hslash : g.code ≠ 92) :
    quotedEnd d 34 pos (g :: rest) = quotedEnd d 34 (pos + g.width) rest := by
  have hreturn : (g.code = 13 || g.code = 10) = false := by
    simp only [Bool.or_eq_false_iff, decide_eq_false_iff_not]
    omega
  have hcontrol : ¬ g.code < 0x20 := by omega
  rw [quotedEnd.eq_def]
  simp [hslash, hreturn, hquote, hcontrol]

/-- Nor do some of them. -/
theorem quotedEnd_ascii {t : Text} (h : ∀ b ∈ t, 0x20 ≤ b.toNat ∧ b.toNat ≠ 34 ∧ b.toNat ≠ 92) :
    quotedEnd d 34 pos (ascii t ++ rest) = quotedEnd d 34 (pos + t.length) rest := by
  induction t generalizing pos with
  | nil => rfl
  | cons b t ih =>
      obtain ⟨hb, ht⟩ := List.forall_mem_cons.1 h
      rw [ascii_cons, List.cons_append, quotedEnd_plain hb.1 hb.2.1 hb.2.2, ih ht, asciiGlyph_width,
        List.length_cons, Nat.add_assoc, Nat.add_comm 1]

/-- Nor does an escape, whatever character it is of. -/
theorem quotedEnd_escape {b : UInt8} (h : b.toNat ≠ 13) :
    quotedEnd d 34 pos (asciiGlyph 92 :: asciiGlyph b :: rest) = quotedEnd d 34 (pos + 2) rest := by
  rw [quotedEnd.eq_def]
  simp [h]

/-- Nor does any letter. -/
theorem quotedEnd_glyphs (h : l.IsJson) :
    quotedEnd d 34 pos (l.glyphs ++ rest) = quotedEnd d 34 (pos + l.text.length) rest := by
  cases l with
  | plain c => exact quotedEnd_plain h.1 h.2.2.2.1 h.2.2.2.2
  | short b =>
      have hall : ∀ b ∈ shortEscapes.map (·.1), b.toNat ≠ 13 := by decide
      exact quotedEnd_escape (hall b (mem_of_short h))
  | long digits =>
      have hdigits : ∀ b ∈ digits, 0x20 ≤ b.toNat ∧ b.toNat ≠ 34 ∧ b.toNat ≠ 92 := by
        intro b hb
        have hhex := h.2 b hb
        unfold CodePoint.isHex CodePoint.hexValue? at hhex
        split_ifs at hhex <;> simp_all <;> omega
      rw [glyphs, ascii_cons, ascii_cons, List.cons_append, List.cons_append, quotedEnd_escape (by decide),
        quotedEnd_ascii hdigits]
      simp only [text, List.length_cons]
      congr 1
      omega

/-- A string goes over its letters to the quote behind them. -/
theorem quotedEnd_letters (h : ∀ l ∈ ls, l.IsJson) :
    quotedEnd d 34 pos (ls.flatMap glyphs ++ asciiGlyph 34 :: rest) =
      .ok (.quote, ⟨pos + (ls.flatMap text).length + 1, rest⟩) := by
  induction ls generalizing pos with
  | nil =>
      rw [List.flatMap_nil, List.nil_append, quotedEnd.eq_def]
      simp
  | cons l ls ih =>
      obtain ⟨hl, hls⟩ := List.forall_mem_cons.1 h
      rw [List.flatMap_cons, List.append_assoc, quotedEnd_glyphs hl, ih hls, List.flatMap_cons,
        List.length_append, Nat.add_assoc pos]

end Letter

/-! ### Strings -/

/-- The string that is written with the given characters. -/
def quoted (ls : List Letter) : Text := 34 :: ls.flatMap Letter.text ++ [34]

variable {ls : List Letter}

theorem bytesOf_letters (ls : List Letter) : bytesOf (ls.flatMap Letter.glyphs) = ls.flatMap Letter.text :=
  bytesOf_flatMap fun _ _ => Letter.bytesOf_glyphs

theorem genuine_letters (h : ∀ l ∈ ls, l.IsJson) :
    ∀ g ∈ ls.flatMap Letter.glyphs, g.Genuine ∧ isInvalid g = false := by
  intro g hg
  obtain ⟨l, hl, hg⟩ := List.mem_flatMap.1 hg
  exact Letter.genuine_of_isJson (h l hl) g hg

/-- The characters of a string are the quotes and those of its letters. -/
theorem glyphs_quoted (h : ∀ l ∈ ls, l.IsJson) :
    glyphs (quoted ls) = asciiGlyph 34 :: ls.flatMap Letter.glyphs ++ [asciiGlyph 34] := by
  have hbytes : quoted ls = bytesOf (asciiGlyph 34 :: ls.flatMap Letter.glyphs ++ [asciiGlyph 34]) := by
    rw [bytesOf_append, bytesOf_cons, bytesOf_letters]
    rfl
  have hquote : (asciiGlyph 34).Genuine ∧ isInvalid (asciiGlyph 34) = false := ⟨rfl, rfl⟩
  rw [hbytes]
  refine glyphs_bytesOf fun g hg => ?_
  obtain hg | hg := List.mem_append.1 hg
  · obtain rfl | hg := List.mem_cons.1 hg
    · exact hquote
    · exact genuine_letters h g hg
  · obtain rfl := List.mem_singleton.1 hg
    exact hquote

/-- A string of letters is valid text. -/
theorem isValid_quoted (h : ∀ l ∈ ls, l.IsJson) : isValid (quoted ls) := by
  rw [isValid_iff, glyphs_quoted h]
  intro g hg
  simp only [List.cons_append, List.mem_cons, List.mem_append, List.not_mem_nil, or_false] at hg
  obtain rfl | hg | rfl := hg
  · rfl
  · exact (genuine_letters h g hg).2
  · rfl

/-- A JSON string is read as one token, in both dialects. -/
theorem scanLexeme_string (h : ∀ l ∈ ls, l.IsJson) (d : Dialect) (pos : Nat) (rest : List Glyph) :
    scanLexeme d ⟨pos, glyphs (quoted ls) ++ rest⟩ =
      .ok { kind := .string, cursor := ⟨pos + (quoted ls).length, rest⟩, units := ls.flatMap Letter.units } := by
  have hend := @Letter.quotedEnd_letters ls d (pos + 1) rest h
  have htake := @Glyph.takeBytes_append (ls.flatMap Letter.glyphs) (asciiGlyph 34 :: rest)
    fun g hg => (genuine_letters h g hg).1
  have hlength : pos + 1 + (ls.flatMap Letter.text).length + 1 = pos + (quoted ls).length := by
    simp only [quoted, List.length_append, List.length_cons, List.length_nil]
    omega
  have hscan : scanQuoted d 34 false pos ⟨pos + 1, ls.flatMap Letter.glyphs ++ asciiGlyph 34 :: rest⟩ =
      .ok (.string, ls.flatMap Letter.units, ⟨pos + (quoted ls).length, rest⟩) := by
    rw [bytesOf_letters] at htake
    simp only [scanQuoted, hend, ok_bind, Closing.width]
    rw [Nat.add_sub_cancel, Nat.add_sub_cancel_left, htake, Letter.decodeUnits_glyphs h, ok_bind, hlength]
    cases d <;> rfl
  rw [glyphs_quoted h, List.cons_append, List.cons_append, List.append_assoc, List.singleton_append,
    scanLexeme.eq_def]
  simp only [asciiGlyph_code, asciiGlyph_width, show (34 : UInt8).toNat = 34 from rfl, Nat.reduceEqDiff, reduceIte,
    decide_true, Bool.true_or, hscan, ok_bind]
  rfl

end Json

end ModuleSystem
