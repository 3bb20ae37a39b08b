import ModuleSystem.Proofs.Text.Quoting

/-!
# The lexer — reading words and marks

What the lexer does on a text that is known: after blanks it reads a word up to a character that cannot
continue it (`next_word`), or a mark that no longer mark begins with (`next_mark`), and at the end it
reads the end (`next_end`).  What follows is arbitrary.
-/

namespace ModuleSystem.Lexer

open Cursor Utf8

/-! ### ASCII text -/

/-- The characters of an ASCII text. -/
def ascii (t : Text) : List Glyph := t.map asciiGlyph

@[simp] theorem ascii_nil : ascii [] = [] := rfl

@[simp] theorem ascii_cons (b : UInt8) (t : Text) : ascii (b :: t) = asciiGlyph b :: ascii t := rfl

@[simp] theorem ascii_append (t u : Text) : ascii (t ++ u) = ascii t ++ ascii u := List.map_append

@[simp] theorem asciiGlyph_code (b : UInt8) : (asciiGlyph b).code = b.toNat := rfl

@[simp] theorem asciiGlyph_width (b : UInt8) : (asciiGlyph b).width = 1 := rfl

/-- The characters of an ASCII text spell the text. -/
@[simp] theorem bytesOf_ascii (t : Text) : bytesOf (ascii t) = t := by
  induction t with
  | nil => rfl
  | cons b t ih => rw [ascii_cons, bytesOf_cons, ih]; rfl

/-- The characters of an ASCII text are read from its bytes, and are valid. -/
theorem genuine_ascii {t : Text} (h : ∀ b ∈ t, b.toNat < 128) : ∀ g ∈ ascii t, g.Genuine ∧ isInvalid g = false := by
  intro g hg
  obtain ⟨b, hb, rfl⟩ := List.mem_map.1 hg
  have hne : b.toNat ≠ replacement := by
    have := h b hb
    unfold replacement
    omega
  exact ⟨asciiGlyph_genuine (h b hb), by simp [isInvalid, hne]⟩

/-- ASCII text is read byte by byte. -/
theorem glyphs_ascii {t : Text} (h : ∀ b ∈ t, b.toNat < 128) : glyphs t = ascii t :=
  (congrArg glyphs (bytesOf_ascii t)).symm.trans (glyphs_bytesOf (genuine_ascii h))

/-- As many bytes as an ASCII text has are its characters. -/
theorem takeBytes_ascii {t : Text} (h : ∀ b ∈ t, b.toNat < 128) (rest : List Glyph) :
    Glyph.takeBytes t.length (ascii t ++ rest) = ascii t := by
  have htake := @Glyph.takeBytes_append (ascii t) rest fun g hg => (genuine_ascii h g hg).1
  rwa [bytesOf_ascii] at htake

/-! ### Blanks -/

/-- Blanks are skipped up to a character that is neither a blank nor the beginning of a comment. -/
theorem skipGap_blanks (d : Dialect) (newline : Bool) (k pos : Nat) {rest : List Glyph}
    (h : ∀ g ∈ rest.head?, isLineEnd g.code = false ∧ CodePoint.isBlank g.code = false ∧ g.code ≠ 47) :
    skipGap d newline ⟨pos, ascii (List.replicate k 32) ++ rest⟩ = .ok (⟨pos + k, rest⟩, newline) := by
  have hblank : CodePoint.isBlank (asciiGlyph 32).code = true := by decide
  unfold skipGap
  induction k generalizing pos with
  | zero =>
      rw [List.replicate_zero, ascii_nil, List.nil_append]
      cases rest with
      | nil => rfl
      | cons g gs =>
          obtain ⟨hend, hblank, hcomment⟩ := h g rfl
          cases gs <;> simp [skipGapFrom, hend, hblank, hcomment]
  | succ k ih =>
      have hend : isLineEnd (asciiGlyph 32).code = false := by decide
      have hk := ih (pos + 1)
      rw [show pos + 1 + k = pos + (k + 1) by omega] at hk
      rw [List.replicate_succ, ascii_cons, List.cons_append, skipGapFrom.eq_def]
      simpa only [hend, hblank, asciiGlyph_width, Bool.false_eq_true, reduceIte] using hk

/-! ### Words -/

/-- A word in ASCII. -/
structure IsWord (w : Text) : Prop where
  ne_nil : w ≠ []
  ascii : ∀ b ∈ w, b.toNat < 128
  start : ∀ b ∈ w.head?, CodePoint.isIdentifierStart b.toNat = true
  part : ∀ b ∈ w, CodePoint.isIdentifierPart b.toNat = true

instance (w : Text) : Decidable (IsWord w) :=
  decidable_of_iff (w ≠ [] ∧ (∀ b ∈ w, b.toNat < 128) ∧
    (w.head?.all fun b => CodePoint.isIdentifierStart b.toNat) = true ∧
    ∀ b ∈ w, CodePoint.isIdentifierPart b.toNat = true)
    ⟨fun h => ⟨h.1, h.2.1, (Option.all_eq_true _ _).1 h.2.2.1, h.2.2.2⟩,
      fun h => ⟨h.ne_nil, h.ascii, (Option.all_eq_true _ _).2 h.start, h.part⟩⟩

/-- The characters of a word are skipped up to one that is no part of a name. -/
theorem skip_word {w : Text} (h : ∀ b ∈ w, CodePoint.isIdentifierPart b.toNat = true) (pos : Nat)
    {rest : List Glyph} (hrest : ∀ g ∈ rest.head?, CodePoint.isIdentifierPart g.code = false) :
    skipFrom CodePoint.isIdentifierPart pos (ascii w ++ rest) = ⟨pos + w.length, rest⟩ := by
  induction w generalizing pos with
  | nil =>
      cases rest with
      | nil => rfl
      | cons g rest => simp [skipFrom, hrest g rfl]
  | cons b w ih =>
      obtain ⟨hb, hw⟩ := List.forall_mem_cons.1 h
      rw [ascii_cons, List.cons_append, skipFrom, asciiGlyph_code, if_pos hb, ih hw, asciiGlyph_width,
        List.length_cons]
      congr 1
      omega

/-- Characters that start a word start no other token. -/
theorem ne_of_isIdentifierStart {c : Nat} (h : CodePoint.isIdentifierStart c = true) (hc : c < 128) :
    c ≠ 34 ∧ c ≠ 35 ∧ c ≠ 39 ∧ c ≠ 46 ∧ c ≠ 47 ∧ c ≠ 96 ∧ CodePoint.isDigit c = false ∧
      isLineEnd c = false ∧ CodePoint.isBlank c = false := by
  have hall : ∀ c < 128, CodePoint.isIdentifierStart c = true →
      c ≠ 34 ∧ c ≠ 35 ∧ c ≠ 39 ∧ c ≠ 46 ∧ c ≠ 47 ∧ c ≠ 96 ∧ CodePoint.isDigit c = false ∧
        isLineEnd c = false ∧ CodePoint.isBlank c = false := by
    decide
  exact hall c hc h

/-- What stands there ends a word. -/
def EndsWord (rest : List Glyph) : Prop :=
  ∀ g ∈ rest.head?, CodePoint.isIdentifierPart g.code = false ∧ g.code ≠ 92

/-- A word is read as a name, or as the keyword that it is. -/
theorem scanLexeme_word {w : Text} (hw : IsWord w) (d : Dialect) (pos : Nat) {rest : List Glyph}
    (hrest : EndsWord rest) :
    scanLexeme d ⟨pos, ascii w ++ rest⟩ =
      .ok { kind := nameKind w, name := w, cursor := ⟨pos + w.length, rest⟩ } := by
  obtain ⟨b, u, rfl⟩ := List.exists_cons_of_ne_nil hw.ne_nil
  have hb := hw.start b rfl
  obtain ⟨h34, h35, h39, h46, -, h96, hdigit, -, -⟩ :=
    ne_of_isIdentifierStart hb (hw.ascii b List.mem_cons_self)
  have hstop := skip_word hw.part pos fun g hg => (hrest g hg).1
  have hname := takeBytes_ascii hw.ascii rest
  rw [scanLexeme.eq_def]
  simp only [ascii_cons, List.cons_append, asciiGlyph_code, h34, h35, h39, h46, h96, hdigit, hb,
    decide_false, Bool.or_self, Bool.false_and, Bool.false_eq_true, reduceIte, Bool.true_or]
  simp only [ascii_cons, List.cons_append] at hstop hname
  have hpeek : ¬ peek ⟨pos + (b :: u).length, rest⟩ = some 92 := by
    intro hpeek
    obtain ⟨g, hg, hcode⟩ := Option.map_eq_some_iff.1 hpeek
    exact (hrest g hg).2 hcode
  simp only [scanName, skip, hstop, if_neg hpeek, Nat.add_sub_cancel_left, hname]
  rw [← ascii_cons, bytesOf_ascii]
  rfl

/-! ### Marks -/

/-- The mark that a character stands for which no longer mark begins with. -/
def markOf : UInt8 → Option TokenKind
  | 40 => some .openParen
  | 41 => some .closeParen
  | 59 => some .semicolon
  | 123 => some .openBrace
  | 125 => some .closeBrace
  | _ => none

/-- The marks are the parentheses, the braces and the semicolon. -/
theorem markOf_cases {b : UInt8} {k : TokenKind} (h : markOf b = some k) :
    (b = 40 ∧ k = .openParen) ∨ (b = 41 ∧ k = .closeParen) ∨ (b = 59 ∧ k = .semicolon) ∨
      (b = 123 ∧ k = .openBrace) ∨ (b = 125 ∧ k = .closeBrace) := by
  unfold markOf at h
  split at h <;> simp_all

/-- A character is read alone if no longer punctuator that begins with it goes on there. -/
theorem punctuator?_alone {b : UInt8} {k : TokenKind} (longer : List (Text × TokenKind))
    (hfilter : TokenKind.punctuators.filter (fun p => p.1.head? = some b) = longer ++ [([b], k)])
    (hk : k ≠ .questionDot) {rest : List Glyph}
    (hrest : ∀ p ∈ longer, ∃ c ∈ p.1[1]?, ∀ g ∈ rest.head?, g.code ≠ c.toNat) :
    punctuator? (asciiGlyph b :: rest) = some ([b], k) := by
  have hne : ∀ p ∈ TokenKind.punctuators, p.1 ≠ [] := by decide
  unfold punctuator?
  extract_lets codes
  have hcodes : codes = b.toNat :: (rest.take 3).map (·.code) := rfl
  -- only what begins with the character is looked at
  rw [← List.head?_filter, List.filter_congr (q := fun p =>
    ((p.1.map (·.toNat)).isPrefixOf codes && !(p.2 == .questionDot
      && ((codes.drop 2).head?.all fun c => CodePoint.isDigit c))) && p.1.head? = some b), ← List.filter_filter,
    hfilter, List.filter_append, List.filter_eq_nil_iff.2, List.nil_append]
  · simp [hcodes, hk]
  · rintro ⟨spelling, kind⟩ hp
    obtain ⟨c, hc, hrest⟩ := hrest _ hp
    obtain ⟨d, e, spelling, rfl⟩ : ∃ d e more, spelling = d :: e :: more := by
      match spelling, hc with
      | d :: e :: more, _ => exact ⟨d, e, more, rfl⟩
    obtain rfl : e = c := by simpa using hc
    cases rest with
    | nil => simp [hcodes]
    | cons g rest => simp [hcodes, (hrest g rfl).symm]
  · rintro ⟨spelling, kind⟩ hp
    obtain ⟨c, spelling, rfl⟩ := List.exists_cons_of_ne_nil (hne _ hp)
    by_cases hc : c = b
    · simp [hc]
    · have hc' : c.toNat ≠ b.toNat := fun heq => hc (UInt8.toNat_inj.1 heq)
      simp [hcodes, hc, hc']

/-- A mark is a punctuator by itself, whatever comes behind it. -/
theorem punctuator?_mark {b : UInt8} {k : TokenKind} (h : markOf b = some k) (rest : List Glyph) :
    punctuator? (asciiGlyph b :: rest) = some ([b], k) := by
  obtain ⟨rfl, rfl⟩ | ⟨rfl, rfl⟩ | ⟨rfl, rfl⟩ | ⟨rfl, rfl⟩ | ⟨rfl, rfl⟩ := markOf_cases h <;>
    exact punctuator?_alone [] (by decide) (by decide) (by simp)

/-- A mark is read as its token. -/
theorem scanLexeme_mark {b : UInt8} {k : TokenKind} (h : markOf b = some k) (d : Dialect) (pos : Nat)
    (rest : List Glyph) :
    scanLexeme d ⟨pos, asciiGlyph b :: rest⟩ = .ok { kind := k, cursor := ⟨pos + 1, rest⟩ } := by
  have hpunctuator := punctuator?_mark h rest
  rw [scanLexeme.eq_def]
  obtain ⟨rfl, rfl⟩ | ⟨rfl, rfl⟩ | ⟨rfl, rfl⟩ | ⟨rfl, rfl⟩ | ⟨rfl, rfl⟩ := markOf_cases h <;>
    simp [hpunctuator, CodePoint.isDigit, CodePoint.isIdentifierStart, steps, step]

/-! ### Moving on -/

/-- The next token is the one that stands behind the gap. -/
theorem next_eq {lx : Lexer} {place : Cursor} {newline : Bool} {l : Lexeme} (hkind : lx.token.kind ≠ .invalid)
    (hgap : skipGap lx.dialect (lx.token.stop = 0) lx.cursor = .ok (place, newline))
    (hl : scanLexeme lx.dialect place = .ok l) : lx.next = .ok (lx.onto place newline lx.token.stop l) := by
  unfold next
  extract_lets prev
  rw [if_neg hkind, hgap, ok_bind]
  dsimp only
  rw [hl]
  rfl

/-- A lexer that stands on a token, with the given characters after it. -/
def after (s : Source) (t : Token) (rest : List Glyph) : Lexer :=
  { source := s, dialect := .script, token := t, cursor := ⟨t.stop, rest⟩ }

/-- The token for a word that follows another token after some blanks. -/
def wordToken (t : Token) (blanks : Nat) (w : Text) : Token :=
  { kind := nameKind w
    start := t.stop + blanks
    stop := t.stop + blanks + w.length
    prevStop := t.stop
    newlineBefore := false
    raw := w
    name := w }

/-- The token for a mark that follows another token after some blanks. -/
def markToken (t : Token) (blanks : Nat) (b : UInt8) (k : TokenKind) : Token :=
  { kind := k
    start := t.stop + blanks
    stop := t.stop + blanks + 1
    prevStop := t.stop
    newlineBefore := false
    raw := [b] }

/-- The token for the end of a source that follows another token after some blanks. -/
def endToken (t : Token) (blanks : Nat) : Token :=
  { kind := .endOfFile
    start := t.stop + blanks
    stop := t.stop + blanks
    prevStop := t.stop
    newlineBefore := false
    raw := [] }

variable {s : Source} {t : Token}

/-- Blanks before a token are passed, and the token is read where they end. -/
theorem next_of_scan (hkind : t.kind ≠ .invalid) (blanks : Nat) {gs : List Glyph} {l : Lexeme}
    (hgap : ∀ g ∈ gs.head?, isLineEnd g.code = false ∧ CodePoint.isBlank g.code = false ∧ g.code ≠ 47)
    (hl : scanLexeme .script ⟨t.stop + blanks, gs⟩ = .ok l) :
    (after s t (ascii (List.replicate blanks 32) ++ gs)).next =
      .ok ((after s t (ascii (List.replicate blanks 32) ++ gs)).onto ⟨t.stop + blanks, gs⟩ (t.stop = 0)
        t.stop l) :=
  @next_eq (after s t (ascii (List.replicate blanks 32) ++ gs)) _ _ _ hkind
    (skipGap_blanks .script (t.stop = 0) blanks t.stop hgap) hl

/-- No blank, comment or line end starts where a word does. -/
theorem no_gap_of_isWord {w : Text} (hw : IsWord w) (gs : List Glyph) :
    ∀ g ∈ (ascii w ++ gs).head?,
      isLineEnd g.code = false ∧ CodePoint.isBlank g.code = false ∧ g.code ≠ 47 := by
  obtain ⟨b, u, rfl⟩ := List.exists_cons_of_ne_nil hw.ne_nil
  rintro _ ⟨⟩
  obtain ⟨-, -, -, -, h47, -, -, hend, hblank⟩ :=
    ne_of_isIdentifierStart (hw.start b rfl) (hw.ascii b List.mem_cons_self)
  exact ⟨hend, hblank, h47⟩

/-- Behind some blanks a word is the next token. -/
theorem next_word (hkind : t.kind ≠ .invalid) (hstop : t.stop ≠ 0) (blanks : Nat) {w : Text}
    (hw : IsWord w) {g : Glyph} (hpart : CodePoint.isIdentifierPart g.code = false)
    (hslash : g.code ≠ 92) (rest : List Glyph) :
    (after s t (ascii (List.replicate blanks 32) ++ (ascii w ++ g :: rest))).next =
      .ok (after s (wordToken t blanks w) (g :: rest)) := by
  have hlexeme := @scanLexeme_word _ hw .script (t.stop + blanks) (g :: rest) (by rintro _ ⟨⟩; exact ⟨hpart, hslash⟩)
  have hraw := takeBytes_ascii hw.ascii (g :: rest)
  rw [next_of_scan hkind blanks (no_gap_of_isWord hw _) hlexeme]
  simp only [onto, after, wordToken, Nat.add_sub_cancel_left, hraw, bytesOf_ascii, hstop, decide_false]

/-- The token for a word at the start of a source. -/
def firstToken (w : Text) : Token :=
  { kind := nameKind w, start := 0, stop := w.length, prevStop := 0, newlineBefore := true, raw := w, name := w }

/-- A source that starts with a word has it for its first token. -/
theorem start_word {w : Text} (hw : IsWord w) {g : Glyph} (hpart : CodePoint.isIdentifierPart g.code = false)
    (hslash : g.code ≠ 92) {rest : List Glyph} (hs : glyphs s.contents = ascii w ++ g :: rest) :
    start s .script = .ok (after s (firstToken w) (g :: rest)) := by
  have hlexeme := @scanLexeme_word _ hw .script 0 (g :: rest) (by rintro _ ⟨⟩; exact ⟨hpart, hslash⟩)
  have hraw := takeBytes_ascii hw.ascii (g :: rest)
  have hnext := next_of_scan (s := s)
    (t := { kind := .endOfFile, start := 0, stop := 0, prevStop := 0, newlineBefore := true, raw := [] })
    (by decide) 0 (no_gap_of_isWord hw _) hlexeme
  rw [start, hs]
  refine hnext.trans ?_
  simp only [onto, after, firstToken, Nat.zero_add, Nat.sub_zero, hraw, bytesOf_ascii, decide_true]

/-- Behind some blanks a mark is the next token. -/
theorem next_mark (hkind : t.kind ≠ .invalid) (hstop : t.stop ≠ 0) (blanks : Nat) {b : UInt8}
    {k : TokenKind} (hb : markOf b = some k) (rest : List Glyph) :
    (after s t (ascii (List.replicate blanks 32) ++ asciiGlyph b :: rest)).next =
      .ok (after s (markToken t blanks b k) rest) := by
  have hascii : b.toNat < 128 ∧ isLineEnd b.toNat = false ∧ CodePoint.isBlank b.toNat = false ∧
      b.toNat ≠ 47 := by
    obtain ⟨rfl, -⟩ | ⟨rfl, -⟩ | ⟨rfl, -⟩ | ⟨rfl, -⟩ | ⟨rfl, -⟩ := markOf_cases hb <;> decide
  have hraw := takeBytes_ascii (t := [b]) (by simpa using hascii.1) rest
  rw [next_of_scan hkind blanks ?_ (scanLexeme_mark hb .script (t.stop + blanks) rest)]
  · simp only [onto, after, markToken, Nat.add_sub_cancel_left, hstop, decide_false]
    rw [show asciiGlyph b :: rest = ascii [b] ++ rest from rfl, show (1 : Nat) = [b].length from rfl,
      hraw, bytesOf_ascii]
  · rintro _ ⟨⟩
    exact hascii.2

/-- Behind some blanks the source ends. -/
theorem next_end (hkind : t.kind ≠ .invalid) (hstop : t.stop ≠ 0) (blanks : Nat) :
    (after s t (ascii (List.replicate blanks 32))).next = .ok (after s (endToken t blanks) []) := by
  have hend := @next_of_scan s t hkind blanks [] _ (by simp) rfl
  rw [List.append_nil] at hend
  rw [hend]
  simp [onto, after, endToken, Glyph.takeBytes, hstop]

end ModuleSystem.Lexer
