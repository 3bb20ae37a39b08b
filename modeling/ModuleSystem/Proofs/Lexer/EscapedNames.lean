import ModuleSystem.Proofs.Lexer.CodePointEscapes
import ModuleSystem.Proofs.Lexer.Spelled

/-!
# The lexer — names with escapes

Each character of a name can be written as it is, with four hexadecimal digits, or with digits between braces.
The lexer passes a name with escapes twice: first it looks for the end, by the marks and digits alone, then it
reads the characters as it reads those of a string, by code units.  Both passes take one written character at a
time (`NameLetter.escapedNameEnd_glyphs`, `NameLetter.decodeFrom_glyphs`), so the ways to write characters can be
mixed in any order.

* `scanEscapedName_letters`: a name is read as the characters that it is written for.
* `escapedNames_read`: names and private names with escapes are single tokens, named by their plain spelling.
-/

namespace ModuleSystem.Lexer

open Cursor Utf8 Json

/-! ### Ways to write a character -/

/-- One character of a name as it is written. -/
inductive NameLetter where
  /-- A character that stands for itself. -/
  | plain (code : Nat)
  /-- A backslash, a `u` and four digits. -/
  | fixed (digits : Text)
  /-- A backslash, a `u` and digits between braces. -/
  | braced (digits : Text)
deriving DecidableEq, Repr

namespace NameLetter

def text : NameLetter → Text
  | plain c => encodeRaw c
  | fixed digits => 92 :: 117 :: digits
  | braced digits => 92 :: 117 :: 123 :: (digits ++ [125])

/-- The code point that it stands for. -/
def code : NameLetter → Nat
  | plain c => c
  | fixed digits | braced digits => hexFrom 0 digits

/-- It is written by the rules: digits are hexadecimal, and there are as many of them as there must be. -/
def IsWritten : NameLetter → Prop
  | plain _ => True
  | fixed digits => digits.length = 4 ∧ ∀ b ∈ digits, CodePoint.isHex b.toNat = true
  | braced digits => digits ≠ [] ∧ ∀ b ∈ digits, CodePoint.isHex b.toNat = true

instance : DecidablePred IsWritten
  | plain _ => inferInstanceAs (Decidable True)
  | fixed digits => inferInstanceAs (Decidable (digits.length = 4 ∧ ∀ b ∈ digits, CodePoint.isHex b.toNat = true))
  | braced digits => inferInstanceAs (Decidable (digits ≠ [] ∧ ∀ b ∈ digits, CodePoint.isHex b.toNat = true))

/-- It is written with a backslash. -/
def isEscape : NameLetter → Bool
  | plain _ => false
  | fixed _ | braced _ => true

/-- The characters that it is written with. -/
def glyphs : NameLetter → List Glyph
  | plain c => [⟨c, encodeRaw c⟩]
  | fixed digits => ascii (92 :: 117 :: digits)
  | braced digits => asciiGlyph 92 :: (ascii (117 :: 123 :: digits) ++ [asciiGlyph 125])

/-- It is written by the rules for a character that is read as itself, which backslashes and carriage returns are
not. -/
structure Legible (l : NameLetter) : Prop where
  written : l.IsWritten
  le : l.code ≤ 0x10FFFF
  not_surrogate : isSurrogate l.code = false
  slash : l.code ≠ 92
  carriage : l.code ≠ 13

variable {l : NameLetter} {ls : List NameLetter} {pos : Nat} {rest : List Glyph} {digits : Text}

/-- The characters that a letter is written with spell its text. -/
theorem bytesOf_glyphs : bytesOf l.glyphs = l.text := by
  cases l with
  | plain c => simp [glyphs, text]
  | fixed digits => exact bytesOf_ascii _
  | braced digits => rw [glyphs, bytesOf_cons, bytesOf_append, bytesOf_ascii]; rfl

theorem bytesOf_letters (ls : List NameLetter) : bytesOf (ls.flatMap glyphs) = ls.flatMap text :=
  bytesOf_flatMap fun _ _ => bytesOf_glyphs

/-- A letter that can be read is written with valid characters. -/
theorem genuine (h : l.Legible) : ∀ g ∈ l.glyphs, g.Genuine ∧ isInvalid g = false := by
  cases l with
  | plain c => exact List.forall_mem_singleton.2 (glyphs_encodeRaw h.le h.not_surrogate)
  | fixed digits =>
      exact genuine_ascii (List.forall_mem_cons.2 ⟨by decide,
        List.forall_mem_cons.2 ⟨by decide, Letter.lt_of_isHex h.written.2⟩⟩)
  | braced digits =>
      refine List.forall_mem_cons.2 ⟨⟨rfl, rfl⟩, List.forall_mem_append.2 ⟨genuine_ascii ?_, ?_⟩⟩
      · exact List.forall_mem_cons.2 ⟨by decide, List.forall_mem_cons.2 ⟨by decide, Letter.lt_of_isHex h.written.2⟩⟩
      · exact List.forall_mem_singleton.2 ⟨rfl, rfl⟩

theorem genuine_letters (h : ∀ l ∈ ls, l.Legible) : ∀ g ∈ ls.flatMap glyphs, g.Genuine ∧ isInvalid g = false := by
  intro g hg
  obtain ⟨l, hl, hg⟩ := List.mem_flatMap.1 hg
  exact genuine (h l hl) g hg

/-- The characters of some letters are those of each. -/
theorem glyphs_letters (h : ∀ l ∈ ls, l.Legible) : Utf8.glyphs (ls.flatMap text) = ls.flatMap glyphs := by
  rw [← bytesOf_letters]
  exact glyphs_bytesOf (genuine_letters h)

/-! ### Where the name ends -/

/-- No brace is a digit. -/
theorem ne_of_isHex {c : Nat} (h : CodePoint.isHex c = true) : c ≠ 123 ∧ c ≠ 125 := by
  constructor <;> rintro rfl <;> cases h

/-- Digits in braces are passed up to the closing one. -/
theorem escapedNameEnd_braces (h : ∀ b ∈ digits, CodePoint.isHex b.toNat = true) :
    escapedNameEnd .braces pos (ascii digits ++ asciiGlyph 125 :: rest) =
      escapedNameEnd .plain (pos + digits.length + 1) rest := by
  induction digits generalizing pos with
  | nil => rw [ascii_nil, List.nil_append, escapedNameEnd, asciiGlyph_code, if_pos (by decide)]; rfl
  | cons b digits ih =>
      obtain ⟨hb, hdigits⟩ := List.forall_mem_cons.1 h
      rw [ascii_cons, List.cons_append, escapedNameEnd, asciiGlyph_code, if_neg (ne_of_isHex hb).2, if_pos hb,
        ih hdigits, List.length_cons]
      congr 1
      omega

/-- Digits of a fixed number are passed. -/
theorem escapedNameEnd_fixed {missing : Nat} (h : ∀ b ∈ digits, CodePoint.isHex b.toNat = true)
    (hlength : digits.length = missing + 1) :
    escapedNameEnd (.fixed (missing + 1)) pos (ascii digits ++ rest) =
      escapedNameEnd .plain (pos + digits.length) rest := by
  induction missing generalizing digits pos with
  | zero =>
      obtain ⟨b, rfl⟩ := List.length_eq_one_iff.1 hlength
      rw [ascii_cons, ascii_nil, List.singleton_append, escapedNameEnd, asciiGlyph_code,
        if_pos (h b List.mem_cons_self)]
      rfl
  | succ missing ih =>
      obtain ⟨b, digits, rfl⟩ := List.exists_cons_of_length_eq_add_one hlength
      obtain ⟨hb, hdigits⟩ := List.forall_mem_cons.1 h
      rw [ascii_cons, List.cons_append, escapedNameEnd, asciiGlyph_code, if_pos hb, if_neg (by omega),
        Nat.add_sub_cancel, ih hdigits (Nat.succ.inj hlength), List.length_cons]
      congr 1
      omega

/-- The search for the end passes a written character as a whole. -/
theorem escapedNameEnd_glyphs (h : l.Legible) (hpart : CodePoint.isIdentifierPart l.code = true) :
    escapedNameEnd .plain pos (l.glyphs ++ rest) = escapedNameEnd .plain (pos + l.text.length) rest := by
  cases l with
  | plain c =>
      have hslash : c ≠ 92 := h.slash
      rw [glyphs, List.singleton_append, escapedNameEnd, if_neg hslash]
      exact if_pos hpart
  | fixed digits =>
      obtain ⟨hlength, hdigits⟩ := h.written
      obtain ⟨b, digits, rfl⟩ := List.exists_cons_of_length_eq_add_one hlength
      obtain ⟨hb, hdigits⟩ := List.forall_mem_cons.1 hdigits
      rw [glyphs, ascii_cons, ascii_cons, ascii_cons, List.cons_append, List.cons_append, List.cons_append,
        escapedNameEnd, asciiGlyph_code, if_pos (by decide), escapedNameEnd, asciiGlyph_code, if_pos (by decide),
        escapedNameEnd, asciiGlyph_code, if_neg (ne_of_isHex hb).1, if_pos hb,
        escapedNameEnd_fixed hdigits (Nat.succ.inj hlength)]
      simp only [text, List.length_cons]
      congr 1
      omega
  | braced digits =>
      rw [glyphs, ascii_cons, ascii_cons, List.cons_append, List.append_assoc, List.cons_append, List.cons_append,
        escapedNameEnd, asciiGlyph_code, if_pos (by decide), escapedNameEnd, asciiGlyph_code,
        if_pos (by decide), escapedNameEnd, asciiGlyph_code, if_pos (by decide), List.singleton_append,
        escapedNameEnd_braces h.written.2]
      simp only [text, List.length_cons, List.length_append, List.length_nil]
      congr 1
      omega

/-- Letters in any mixture of forms are passed up to the end of the name. -/
theorem escapedNameEnd_letters (h : ∀ l ∈ ls, l.Legible ∧ CodePoint.isIdentifierPart l.code = true)
    (hrest : EndsWord rest) :
    escapedNameEnd .plain pos (ls.flatMap glyphs ++ rest) = .ok ⟨pos + (ls.flatMap text).length, rest⟩ := by
  induction ls generalizing pos with
  | nil =>
      cases rest with
      | nil => rfl
      | cons g gs =>
          obtain ⟨hpart, hslash⟩ := hrest g rfl
          simp [escapedNameEnd, hpart, hslash]
  | cons l ls ih =>
      obtain ⟨hl, hls⟩ := List.forall_mem_cons.1 h
      rw [List.flatMap_cons, List.append_assoc, escapedNameEnd_glyphs hl.1 hl.2, ih hls, List.flatMap_cons,
        List.length_append, Nat.add_assoc]

/-! ### What the name is -/

/-- A written character is read as its code point, whatever follows. -/
theorem decodeFrom_glyphs (h : l.Legible) : decodeFrom .script 0 pos (l.glyphs ++ rest) =
    (do return Utf16.units l.code ++ (← decodeFrom .script 0 (pos + l.text.length) rest)) := by
  rw [← bytesOf_glyphs]
  refine Letter.decodeFrom_append (by cases l <;> exact List.cons_ne_nil _ _) ?_
  rintro g gs hg
  cases l with
  | plain c =>
      obtain ⟨rfl, rfl⟩ := List.cons_eq_cons.1 hg
      have hslash : c ≠ 92 := h.slash
      have hreturn : c ≠ 13 := h.carriage
      rw [readUnit, if_neg hslash, if_neg hreturn]
      rfl
  | fixed digits =>
      obtain ⟨rfl, rfl⟩ := List.cons_eq_cons.1 hg
      have hvalue : hexFrom 0 digits < 65536 := by
        have := Letter.hexFrom_lt 0 digits
        rwa [h.written.1] at this
      refine (Letter.readEscape_long h.written).trans ?_
      rw [List.length_map, List.length_cons, h.written.1, code, Utf16.units, if_pos (by omega)]
      rfl
  | braced digits =>
      obtain ⟨rfl, rfl⟩ := List.cons_eq_cons.1 hg
      have hread := readEscape_braced h.written.1 h.written.2 pos rest
      have hglyphs : ascii (117 :: 123 :: (digits ++ [125])) = ascii (117 :: 123 :: digits) ++ [asciiGlyph 125] := by
        simp
      have hle : hexFrom 0 digits ≤ 0x10FFFF := h.le
      rw [if_neg (Nat.not_lt.2 hle), hglyphs] at hread
      refine Eq.trans hread ?_
      simp [code, ascii]

/-- Letters in any mixture of forms stand for their code points. -/
theorem decodeUnits_letters (h : ∀ l ∈ ls, l.Legible) :
    decodeUnits .script pos (ls.flatMap glyphs) = .ok ((ls.map code).flatMap Utf16.units) := by
  unfold decodeUnits
  induction ls generalizing pos with
  | nil => rfl
  | cons l ls ih =>
      obtain ⟨hl, hls⟩ := List.forall_mem_cons.1 h
      rw [List.flatMap_cons, decodeFrom_glyphs hl, ih hls]
      rfl

end NameLetter

/-- A valid text is that of the code units of its code points. -/
theorem toTextRepaired_codes {t : Text} (h : isValid t) : Utf16.toTextRepaired (t.codes.flatMap Utf16.units) = t := by
  obtain ⟨hcodes, hscalar⟩ := Utf16.codePoints_ofText h
  have htext := Utf16.toText_ofText h
  rw [Utf16.toText, hcodes] at htext
  rw [Utf16.toTextRepaired, Utf16.codePoints_units hscalar]
  refine Eq.trans (List.flatMap_congr fun c hc => ?_) htext
  obtain ⟨hle, hsurrogate⟩ := hscalar c hc
  rw [encode, if_neg (by simpa [hsurrogate] using hle)]

/-! ### Reading the name -/

open NameLetter

variable {ls as bs : List NameLetter} {start sign pos : Nat} {rest : List Glyph} {w : Text}

/-- A name is read as the text of the characters that it is written for.  The cursor is behind the characters `as`,
where the search for the end begins. -/
theorem scanEscapedName_letters (has : ∀ l ∈ as, l.Legible)
    (hbs : ∀ l ∈ bs, l.Legible ∧ CodePoint.isIdentifierPart l.code = true) (hrest : EndsWord rest)
    (hvalid : isValid w) (hcodes : (as ++ bs).map code = w.codes) (hname : isIdentifier (w.drop sign) = true) :
    scanEscapedName .script start sign ((as ++ bs).flatMap NameLetter.glyphs ++ rest)
        ⟨start + (as.flatMap text).length, bs.flatMap NameLetter.glyphs ++ rest⟩ =
      .ok (w, ⟨start + ((as ++ bs).flatMap text).length, rest⟩) := by
  have hall : ∀ l ∈ as ++ bs, l.Legible := by
    intro l hl
    exact (List.mem_append.1 hl).elim (has l) fun hl => (hbs l hl).1
  have htake := @Glyph.takeBytes_append ((as ++ bs).flatMap NameLetter.glyphs) rest
    fun g hg => (genuine_letters hall g hg).1
  have hstop : start + (as.flatMap text).length + (bs.flatMap text).length =
      start + ((as ++ bs).flatMap text).length := by
    rw [List.flatMap_append, List.length_append, Nat.add_assoc]
  rw [NameLetter.bytesOf_letters] at htake
  unfold scanEscapedName
  dsimp only
  rw [escapedNameEnd_letters hbs hrest, ok_bind, hstop]
  dsimp only
  rw [Nat.add_sub_cancel_left, htake, decodeUnits_letters hall, ok_bind, hcodes, toTextRepaired_codes hvalid,
    if_pos hname]
  rfl

/-- Letters with an escape among them begin with letters that are none. -/
theorem exists_first_escape (h : ∃ l ∈ ls, l.isEscape = true) :
    ∃ as b bs, ls = as ++ b :: bs ∧ b.isEscape = true ∧ ∀ l ∈ as, l.isEscape = false := by
  obtain ⟨b, hb⟩ := Option.isSome_iff_exists.1 (List.find?_isSome.2 h)
  obtain ⟨hescape, as, bs, hls, has⟩ := List.find?_eq_some_iff_append.1 hb
  exact ⟨as, b, bs, hls, hescape, fun l hl => by simpa using has l hl⟩

/-- The characters before the first escape are skipped, and the escape is seen. -/
theorem skip_letters {b : NameLetter} (hb : b.isEscape = true)
    (has : ∀ l ∈ as, l.isEscape = false ∧ CodePoint.isIdentifierPart l.code = true) :
    skipFrom CodePoint.isIdentifierPart pos ((as ++ b :: bs).flatMap NameLetter.glyphs ++ rest) =
        ⟨pos + (as.flatMap text).length, (b :: bs).flatMap NameLetter.glyphs ++ rest⟩ ∧
      peek ⟨pos + (as.flatMap text).length, (b :: bs).flatMap NameLetter.glyphs ++ rest⟩ = some 92 := by
  obtain ⟨gs, hgs⟩ : ∃ gs, b.glyphs = asciiGlyph 92 :: gs := by
    cases b with
    | plain => cases hb
    | fixed | braced => exact ⟨_, rfl⟩
  have hhead : (b :: bs).flatMap NameLetter.glyphs ++ rest =
      asciiGlyph 92 :: (gs ++ bs.flatMap NameLetter.glyphs ++ rest) := by
    rw [List.flatMap_cons, hgs]
    simp
  have hplain : ∀ g ∈ as.flatMap NameLetter.glyphs, CodePoint.isIdentifierPart g.code = true := by
    intro g hg
    obtain ⟨l, hl, hg⟩ := List.mem_flatMap.1 hg
    obtain ⟨hescape, hpart⟩ := has l hl
    cases l with
    | plain c => rwa [List.mem_singleton.1 hg]
    | fixed | braced => cases hescape
  have hskip := @Piece.skip_append CodePoint.isIdentifierPart _ ((b :: bs).flatMap NameLetter.glyphs ++ rest) hplain
    (by rw [hhead]; rintro _ ⟨⟩; decide) pos
  rw [NameLetter.bytesOf_letters] at hskip
  exact ⟨by rw [List.flatMap_append, List.append_assoc, hskip], by rw [hhead]; rfl⟩

/-- The characters that an identifier is written with are read as themselves, and continue a name. -/
theorem legible_of_codes (hw : isIdentifier w = true) (hls : ∀ l ∈ ls, l.IsWritten) (hcodes : ls.map code = w.codes) :
    ∀ l ∈ ls, l.Legible ∧ CodePoint.isIdentifierPart l.code = true := by
  intro l hl
  have hmem : l.code ∈ w.codes := hcodes ▸ List.mem_map_of_mem hl
  obtain ⟨hle, hsurrogate⟩ := (Utf16.codePoints_ofText (Piece.isValid_of_isIdentifier hw)).2 _ hmem
  have hpart : CodePoint.isIdentifierPart l.code = true := by
    obtain ⟨g, gs, hgs, -, hall⟩ := Piece.glyphs_of_isIdentifier hw
    obtain ⟨k, hk, hcode⟩ := List.mem_map.1 hmem
    rw [← hcode]
    exact hall k (hgs ▸ hk)
  have hnot : CodePoint.isIdentifierPart 92 = false ∧ CodePoint.isIdentifierPart 13 = false := by decide
  refine ⟨⟨hls l hl, hle, hsurrogate, fun hcode => ?_, fun hcode => ?_⟩, hpart⟩
  · rw [hcode, hnot.1] at hpart
    cases hpart
  · rw [hcode, hnot.2] at hpart
    cases hpart

/-- What an identifier begins with, written in any way. -/
def startsName (c : Nat) : Bool := CodePoint.isIdentifierStart c || decide (c = 92)

/-- The first character of a name that is written with letters may start a name, or an escape. -/
theorem exists_first (hw : isIdentifier w = true) (hcodes : ls.map code = w.codes) :
    ∃ g gs, ls.flatMap NameLetter.glyphs = g :: gs ∧ startsName g.code = true := by
  obtain ⟨k, ks, hks, hstart, -⟩ := Piece.glyphs_of_isIdentifier hw
  rw [Text.codes, hks, List.map_cons] at hcodes
  obtain ⟨l, ls, rfl, hcode, -⟩ := List.map_eq_cons_iff.1 hcodes
  cases l with
  | plain c =>
      refine ⟨⟨c, encodeRaw c⟩, ls.flatMap NameLetter.glyphs, rfl, ?_⟩
      rw [startsName, show c = k.code from hcode, hstart, Bool.true_or]
  | fixed | braced => exact ⟨_, _, rfl, rfl⟩

/-- What may start a name starts no other token. -/
theorem ne_of_startsName {c : Nat} (h : startsName c = true) :
    c ≠ 33 ∧ c ≠ 34 ∧ c ≠ 35 ∧ c ≠ 39 ∧ c ≠ 46 ∧ c ≠ 47 ∧ c ≠ 96 ∧ CodePoint.isDigit c = false ∧
      isLineEnd c = false ∧ CodePoint.isBlank c = false := by
  rw [startsName, Bool.or_eq_true, decide_eq_true_eq] at h
  obtain hstart | rfl := h
  · refine ⟨?_, CodePoint.ne_of_isIdentifierStart hstart⟩
    rintro rfl
    cases hstart
  · decide

/-- An identifier with escapes is read as one lexeme. -/
theorem scanLexeme_escaped (hw : isIdentifier w = true) (hls : ∀ l ∈ ls, l.IsWritten)
    (hcodes : ls.map code = w.codes) (hescape : ∃ l ∈ ls, l.isEscape = true) (hrest : EndsWord rest) :
    scanLexeme .script ⟨pos, ls.flatMap NameLetter.glyphs ++ rest⟩ =
      .ok { kind := escapedNameKind w, name := w, cursor := ⟨pos + (ls.flatMap text).length, rest⟩ } := by
  have hlegible := legible_of_codes hw hls hcodes
  obtain ⟨g, gs, hfirst, hstarts⟩ := exists_first hw hcodes
  obtain ⟨-, h34, h35, h39, h46, -, h96, hdigit, -, -⟩ := ne_of_startsName hstarts
  have hname : scanName .script ⟨pos, ls.flatMap NameLetter.glyphs ++ rest⟩ =
      .ok (escapedNameKind w, w, ⟨pos + (ls.flatMap text).length, rest⟩) := by
    obtain ⟨as, b, bs, rfl, hb, has⟩ := exists_first_escape hescape
    obtain ⟨has', hbs⟩ := List.forall_mem_append.1 hlegible
    obtain ⟨hskip, hpeek⟩ := @skip_letters as bs pos rest b hb fun l hl => ⟨has l hl, (has' l hl).2⟩
    have hscan := @scanEscapedName_letters as (b :: bs) pos 0 rest w (fun l hl => (has' l hl).1) hbs hrest
      (Piece.isValid_of_isIdentifier hw) hcodes hw
    unfold scanName
    simp only [skip, hskip, if_pos hpeek, hscan, ok_bind]
    rfl
  have hcond : (CodePoint.isIdentifierStart g.code || decide (g.code = 92)) = true := hstarts
  rw [hfirst, List.cons_append] at hname ⊢
  rw [scanLexeme.eq_def]
  simp only [h34, h35, h39, h46, h96, hdigit, hcond, hname, ok_bind, decide_false, Bool.or_self, Bool.false_and,
    Bool.false_eq_true, reduceIte]
  rfl

/-- A private name with escapes is read as one lexeme. -/
theorem scanLexeme_escapedSign (hw : isIdentifier w = true) (hls : ∀ l ∈ ls, l.IsWritten)
    (hcodes : ls.map code = w.codes) (hescape : ∃ l ∈ ls, l.isEscape = true) (hrest : EndsWord rest) :
    scanLexeme .script ⟨pos, asciiGlyph 35 :: (ls.flatMap NameLetter.glyphs ++ rest)⟩ =
      .ok { kind := .privateName, name := 35 :: w, cursor := ⟨pos + (35 :: ls.flatMap text).length, rest⟩ } := by
  have hlegible := legible_of_codes hw hls hcodes
  have hvalid := Piece.isValid_of_isIdentifier hw
  obtain ⟨g, gs, hfirst, hstarts⟩ := exists_first hw hcodes
  have hname : scanPrivateName .script ⟨pos, asciiGlyph 35 :: (ls.flatMap NameLetter.glyphs ++ rest)⟩ =
      .ok (.privateName, 35 :: w, ⟨pos + (35 :: ls.flatMap text).length, rest⟩) := by
    have hsees : sees ⟨pos + 1, ls.flatMap NameLetter.glyphs ++ rest⟩
        (fun c => CodePoint.isIdentifierStart c || decide (c = 92)) = true := by
      rw [hfirst]
      exact hstarts
    obtain ⟨as, b, bs, rfl, hb, has⟩ := exists_first_escape hescape
    obtain ⟨has', hbs⟩ := List.forall_mem_append.1 hlegible
    obtain ⟨hskip, hpeek⟩ := @skip_letters as bs (pos + 1) rest b hb fun l hl => ⟨has l hl, (has' l hl).2⟩
    -- the sign is one more character that stands for itself
    have hsign : (plain 35).Legible := ⟨trivial, by decide, rfl, by decide, by decide⟩
    have hscan := @scanEscapedName_letters (plain 35 :: as) (b :: bs) pos 1 rest (35 :: w)
      (List.forall_mem_cons.2 ⟨hsign, fun l hl => (has' l hl).1⟩) hbs hrest (isValid_append (t := [35]) rfl hvalid)
      (by
        rw [show (35 :: w : Text) = [35] ++ w from rfl, Text.codes_append rfl, ← hcodes]
        rfl) hw
    have hpos : pos + ((plain 35 :: as).flatMap text).length = pos + 1 + (as.flatMap text).length := by
      rw [List.flatMap_cons, List.length_append, show (plain 35).text.length = 1 from rfl, Nat.add_assoc]
    rw [hpos] at hscan
    replace hscan : scanEscapedName .script pos 1
        (asciiGlyph 35 :: ((as ++ b :: bs).flatMap NameLetter.glyphs ++ rest))
        ⟨pos + 1 + (as.flatMap text).length, (b :: bs).flatMap NameLetter.glyphs ++ rest⟩ =
          .ok (35 :: w, ⟨pos + (35 :: (as ++ b :: bs).flatMap text).length, rest⟩) := hscan
    unfold scanPrivateName
    simp only [step, asciiGlyph_width, hsees, skip, hskip, if_pos hpeek, hscan, ok_bind]
    rfl
  have hmark : ¬ peek ⟨pos + 1, ls.flatMap NameLetter.glyphs ++ rest⟩ = some 33 := by
    rw [hfirst]
    intro hpeek
    exact (ne_of_startsName hstarts).1 (Option.some.inj hpeek)
  rw [scanLexeme.eq_def]
  simp only [asciiGlyph_code, asciiGlyph_width, show (35 : UInt8).toNat = 35 from rfl, reduceIte, hmark, decide_false,
    Bool.and_false, Bool.false_eq_true, hname, ok_bind]
  rfl

/-- A name with escapes that spells a keyword is of a kind of its own. -/
theorem escapedNameKind_eq (w : Text) : escapedNameKind w =
    if w ∈ TokenKind.keywords.map (·.1) then .escapedKeyword else .identifier := by
  have hmem : (TokenKind.keywords.lookup w).isSome = true ↔ w ∈ TokenKind.keywords.map (·.1) := by
    simp [List.lookup_isSome_iff]
  simp only [escapedNameKind, hmem]

/-- A name with escapes stands for its plain spelling.  However the characters of an identifier are written, as they
are, with four digits or with digits between braces, the text is one token, which has the identifier for its
name; it tells whether the name is reserved.  With a sign in front it is one token too, a private name. -/
theorem escapedNames_read (hw : isIdentifier w = true) (hls : ∀ l ∈ ls, l.IsWritten)
    (hcodes : ls.map code = w.codes) (hescape : ∃ l ∈ ls, l.isEscape = true) (s : Source) :
    (∃ token last, Produces (Lexer.start { s with contents := ls.flatMap text } .script) [token, last] none ∧
      token.start = 0 ∧ token.stop = (ls.flatMap text).length ∧ token.name = w ∧
      token.kind = (if w ∈ TokenKind.keywords.map (·.1) then .escapedKeyword else .identifier) ∧
      last.kind = .endOfFile) ∧
    ∃ token last, Produces (Lexer.start { s with contents := 35 :: ls.flatMap text } .script) [token, last] none ∧
      token.start = 0 ∧ token.stop = (35 :: ls.flatMap text).length ∧ token.name = 35 :: w ∧
      token.kind = .privateName ∧ last.kind = .endOfFile := by
  have hglyphs := glyphs_letters fun l hl => (legible_of_codes hw hls hcodes l hl).1
  have hsign : Utf8.glyphs (35 :: ls.flatMap text) = asciiGlyph 35 :: Utf8.glyphs (ls.flatMap text) :=
    Utf8.glyphs_append (t := [35]) rfl
  have hends : EndsWord [] := by
    rintro _ ⟨⟩
  obtain ⟨g, gs, hfirst, hstarts⟩ := exists_first hw hcodes
  obtain ⟨-, -, -, -, -, h47, -, -, hend, hblank⟩ := ne_of_startsName hstarts
  constructor
  · have hscan := @scanLexeme_escaped ls 0 [] w hw hls hcodes hescape hends
    rw [List.append_nil, Nat.zero_add, ← hglyphs] at hscan
    have hgap : skipGap .script true ⟨0, Utf8.glyphs (ls.flatMap text)⟩ =
        .ok (⟨0, Utf8.glyphs (ls.flatMap text)⟩, true) := by
      rw [hglyphs, hfirst]
      exact Piece.skipGap_stay hend hblank (absurd · h47) true 0
    obtain ⟨token, last, hproduces, hkind, hstart, hstop, -, hname, hlast⟩ := produces_alone (s := s) hgap hscan rfl
      (by constructor <;> simp only [escapedNameKind_eq] <;> split <;> simp)
    exact ⟨token, last, hproduces, hstart, hstop, hname, hkind.trans (escapedNameKind_eq w), hlast⟩
  · have hscan := @scanLexeme_escapedSign ls 0 [] w hw hls hcodes hescape hends
    rw [List.append_nil, Nat.zero_add, ← hglyphs, ← hsign] at hscan
    have hgap : skipGap .script true ⟨0, Utf8.glyphs (35 :: ls.flatMap text)⟩ =
        .ok (⟨0, Utf8.glyphs (35 :: ls.flatMap text)⟩, true) := by
      rw [hsign]
      exact Piece.skipGap_stay rfl (by decide) (fun h => by cases h) true 0
    obtain ⟨token, last, hproduces, hkind, hstart, hstop, -, hname, hlast⟩ := produces_alone (s := s) hgap hscan rfl
      ⟨by simp, by simp⟩
    exact ⟨token, last, hproduces, hstart, hstop, hname, hkind, hlast⟩

/-- A name with a character as it is, one with four digits, one outside the basic plane with zeros in front, and a
dollar sign. -/
def mixedName : List NameLetter := [plain 118, fixed "00E9", braced "00001d4B3", plain 36]

theorem escapedNames_read_mixed :
    (∃ token last, Produces (Lexer.start { contents := mixedName.flatMap text } .script) [token, last] none ∧
      token.name = [0x76, 0xC3, 0xA9, 0xF0, 0x9D, 0x92, 0xB3, 0x24] ∧ token.kind = .identifier) ∧
    ∃ token last, Produces (Lexer.start { contents := 35 :: mixedName.flatMap text } .script) [token, last] none ∧
      token.name = [0x23, 0x76, 0xC3, 0xA9, 0xF0, 0x9D, 0x92, 0xB3, 0x24] ∧ token.kind = .privateName := by
  have hw : isIdentifier [0x76, 0xC3, 0xA9, 0xF0, 0x9D, 0x92, 0xB3, 0x24] = true := by decide +kernel
  have hls : ∀ l ∈ mixedName, l.IsWritten := by decide
  have hcodes : mixedName.map code = Text.codes [0x76, 0xC3, 0xA9, 0xF0, 0x9D, 0x92, 0xB3, 0x24] := by
    decide +kernel
  have hescape : ∃ l ∈ mixedName, l.isEscape = true := by decide
  obtain ⟨⟨token, last, hproduces, -, -, hname, hkind, -⟩, token', last', hproduces', -, -, hname', hkind', -⟩ :=
    escapedNames_read hw hls hcodes hescape { contents := [] }
  exact ⟨⟨token, last, hproduces, hname, hkind⟩, token', last', hproduces', hname', hkind'⟩

end ModuleSystem.Lexer
