import Mathlib.Data.List.Find
import Mathlib.Data.List.Infix
import ModuleSystem.Proofs.Lexer.Ascii
import ModuleSystem.Proofs.Lexer.Tiles
import ModuleSystem.Proofs.Lexer.Within

/-!
# The lexer — texts of words, numbers and marks

A `Piece` is a token as it is written.  Pieces that are read alone (`Piece.Reads`) are read one after the
other when there is a blank between any two of them (`lexes_render`).

* `reads_word`: identifiers and reserved words.
* `reads_mark`: marks.
* `reads_number`: numbers, in any notation.
-/

namespace ModuleSystem

/-- A token as it is written. -/
structure Piece where
  kind : TokenKind
  text : Text
  name : Text := []
deriving DecidableEq, Repr

namespace Piece

open Lexer

/-- The token, where it stands in a text with one blank before it. -/
def token (s : Piece) (p : Nat) : Token :=
  { kind := s.kind
    start := p
    stop := p + s.text.length
    prevStop := p - 1
    newlineBefore := p - 1 = 0
    raw := s.text
    name := s.name }

/-- The tokens of pieces from a place on, with one blank between any two of them. -/
def place : Nat → List Piece → List Token
  | _, [] => []
  | p, s :: ss => s.token p :: place (p + (s.text.length + 1)) ss

/-- The text of pieces, with one blank between any two of them. -/
def render (ss : List Piece) : Text := List.intercalate [32] (ss.map text)

/-- The length of pieces with one blank before each of them. -/
def extent : List Piece → Nat
  | [] => 0
  | s :: ss => s.text.length + 1 + extent ss

@[simp] theorem extent_nil : extent [] = 0 := rfl

@[simp] theorem extent_cons (s : Piece) (ss : List Piece) : extent (s :: ss) = s.text.length + 1 + extent ss := rfl

/-- Pieces one after the other take as much of the text as they take apart. -/
@[simp] theorem extent_append (ss us : List Piece) : extent (ss ++ us) = extent ss + extent us := by
  induction ss with
  | nil => rw [List.nil_append, extent_nil, Nat.zero_add]
  | cons s ss ih => rw [List.cons_append, extent_cons, extent_cons, ih, ← Nat.add_assoc]

/-- The lexer reads the piece wherever it stands apart. -/
structure Reads (s : Piece) : Prop where
  valid : Utf8.isValid s.text
  length_pos : 0 < s.text.length
  kind : s.kind ≠ .endOfFile ∧ s.kind ≠ .invalid
  gap : ∀ newline pos gs, Apart gs →
    skipGap .script newline ⟨pos, Utf8.glyphs s.text ++ gs⟩ = .ok (⟨pos, Utf8.glyphs s.text ++ gs⟩, newline)
  scan : ∀ pos gs, Apart gs → scanLexeme .script ⟨pos, Utf8.glyphs s.text ++ gs⟩ =
    .ok { kind := s.kind, name := s.name, cursor := ⟨pos + s.text.length, gs⟩ }

/-! ### Pieces one after the other -/

variable {s : Piece} {ss : List Piece}

/-- The lexer behind a piece. -/
theorem onto_eq {lx : Lexer} (hdialect : lx.dialect = .script) (s : Piece) (p : Nat) (gs : List Glyph) :
    lx.onto ⟨p, Utf8.glyphs s.text ++ gs⟩ (p - 1 = 0) (p - 1)
        { kind := s.kind, name := s.name, cursor := ⟨p + s.text.length, gs⟩ } =
      after lx.source (s.token p) gs := by
  have htake := @Glyph.takeBytes_append (Utf8.glyphs s.text) gs fun g hg => Glyph.genuine_of_mem hg
  rw [Utf8.bytesOf_glyphs] at htake
  obtain ⟨_, _, _, _⟩ := lx
  cases hdialect
  simp only [Lexer.onto, after, token, Nat.add_sub_cancel_left, htake, Utf8.bytesOf_glyphs]

/-- A piece is read where it stands, after a gap. -/
theorem Reads.next (hs : s.Reads) (lx : Lexer) (hdialect : lx.dialect = .script) (hkind : lx.token.kind ≠ .invalid)
    {p : Nat} (hp : lx.token.stop = p - 1) {gs : List Glyph} (hgs : Apart gs)
    (hgap : ∀ newline, skipGap .script newline lx.cursor = skipGap .script newline ⟨p, Utf8.glyphs s.text ++ gs⟩) :
    lx.next = .ok (after lx.source (s.token p) gs) := by
  refine (if_neg hkind).trans ?_
  dsimp only
  rw [hdialect, hgap, hs.gap _ p gs hgs]
  change (scanLexeme .script ⟨p, Utf8.glyphs s.text ++ gs⟩ >>= _) = _
  rw [hs.scan p gs hgs, ← onto_eq hdialect s p gs, ← hp]
  rfl

/-- A blank is skipped. -/
theorem skipGap_blank (newline : Bool) (p : Nat) (gs : List Glyph) :
    skipGap .script newline ⟨p, asciiGlyph 32 :: gs⟩ = skipGap .script newline ⟨p + 1, gs⟩ := by
  have hend : isLineEnd 32 = false := by decide
  have hblank : CodePoint.isBlank 32 = true := by decide
  unfold skipGap
  rw [skipGapFrom.eq_def]
  simp [hend, hblank]

end Piece

/-! ### Names -/

/-- A code point in ranges that are apart from others does not lie in the others. -/
theorem Unicode.Ranges.mem_eq_false_of_apart {rs qs : Unicode.Ranges} {c : Nat}
    (h : (qs.all fun q => rs.all fun r => r.2.blt q.1 || q.2.blt r.1) = true) (hc : qs.mem c = true) :
    rs.mem c = false := by
  obtain ⟨q, hq, hcq⟩ := List.any_eq_true.1 hc
  refine List.any_eq_false.2 fun r hr hcr => ?_
  have hapart := List.all_eq_true.1 (List.all_eq_true.1 h q hq) r hr
  simp only [Bool.and_eq_true, Bool.or_eq_true, decide_eq_true_eq, Nat.blt_eq] at hcq hcr hapart
  omega

namespace CodePoint

/-- White space does not belong to an identifier. -/
theorem isIdentifierPart_of_isBlank {c : Nat} (h : isBlank c = true) : isIdentifierPart c = false := by
  have hmem : Unicode.Ranges.mem ([(9, 9), (11, 12), (0xFEFF, 0xFEFF)] ++ Unicode.spaceSeparator) c = true := by
    simp only [isBlank, Bool.or_eq_true, decide_eq_true_eq] at h
    obtain (((rfl | rfl) | rfl) | rfl) | h := h
    · rfl
    · rfl
    · rfl
    · rfl
    · rw [Unicode.Ranges.mem, List.any_append, Bool.or_eq_true]
      exact .inr h
  have hstart : Unicode.identifierStart.mem c = false := Unicode.Ranges.mem_eq_false_of_apart (by decide +kernel) hmem
  have hmark : Unicode.identifierMark.mem c = false := Unicode.Ranges.mem_eq_false_of_apart (by decide +kernel) hmem
  simp only [Unicode.Ranges.mem, Unicode.spaceSeparator, List.any_append, List.any_cons, List.any_nil, Bool.or_false,
    Bool.or_eq_true, Bool.and_eq_true, decide_eq_true_eq] at hmem
  simp only [isIdentifierPart, isIdentifierStart, hstart, hmark, Bool.or_false]
  split
  · simp only [Bool.or_eq_false_iff, Bool.and_eq_false_iff, decide_eq_false_iff_not]
    omega
  · rfl

/-- Characters that start an identifier start nothing else. -/
theorem ne_of_isIdentifierStart {c : Nat} (h : isIdentifierStart c = true) :
    c ≠ 34 ∧ c ≠ 35 ∧ c ≠ 39 ∧ c ≠ 46 ∧ c ≠ 47 ∧ c ≠ 96 ∧ isDigit c = false ∧ isLineEnd c = false ∧
      isBlank c = false := by
  have hpart := isIdentifierPart_of_isIdentifierStart h
  have hblank : isBlank c = false := by
    by_contra hb
    rw [isIdentifierPart_of_isBlank (Bool.not_eq_false _ ▸ hb)] at hpart
    cases hpart
  by_cases hc : c < 128
  · exact Lexer.ne_of_isIdentifierStart h hc
  · refine ⟨by omega, by omega, by omega, by omega, by omega, by omega, ?_, (ne_of_isIdentifierPart hpart).1, hblank⟩
    simp only [isDigit, Bool.and_eq_false_iff, decide_eq_false_iff_not]
    omega

end CodePoint

namespace Piece

open Lexer Cursor

/-- Characters are skipped up to the first one that is none of them. -/
theorem skip_append {p : Nat → Bool} {gs hs : List Glyph} (h : ∀ g ∈ gs, p g.code = true)
    (hhs : ∀ g ∈ hs.head?, p g.code = false) (pos : Nat) :
    skipFrom p pos (gs ++ hs) = ⟨pos + (Utf8.bytesOf gs).length, hs⟩ := by
  induction gs generalizing pos with
  | nil =>
      cases hs with
      | nil => rfl
      | cons g hs => simp [skipFrom, hhs g rfl]
  | cons g gs ih =>
      obtain ⟨hg, hgs⟩ := List.forall_mem_cons.1 h
      rw [List.cons_append, skipFrom, if_pos hg, ih hgs, Utf8.bytesOf_cons, List.length_append, Glyph.width,
        Nat.add_assoc]

/-- No gap is before a character that is neither a blank nor the beginning of a comment. -/
theorem skipGap_stay {g : Glyph} {gs : List Glyph} (hend : isLineEnd g.code = false)
    (hblank : CodePoint.isBlank g.code = false) (hcomment : g.code = 47 → ∀ h ∈ gs.head?, h.code ≠ 47 ∧ h.code ≠ 42)
    (newline : Bool) (pos : Nat) :
    skipGap .script newline ⟨pos, g :: gs⟩ = .ok (⟨pos, g :: gs⟩, newline) := by
  unfold skipGap
  rw [skipGapFrom.eq_def]
  cases gs with
  | nil => simp [hend, hblank]
  | cons h hs =>
      have hnot : ¬ (g.code = 47 ∧ h.code = 47) ∧ ¬ (g.code = 47 ∧ h.code = 42) :=
        ⟨fun heq => (hcomment heq.1 h rfl).1 heq.2, fun heq => (hcomment heq.1 h rfl).2 heq.2⟩
      simp [hend, hblank, hnot]

/-- The piece for an identifier or a reserved word. -/
def word (x : Text) : Piece := { kind := nameKind x, text := x, name := x }

variable {x : Text}

/-- An identifier begins with what may begin one and goes on with what may continue one. -/
theorem glyphs_of_isIdentifier (h : isIdentifier x = true) : ∃ g gs, Utf8.glyphs x = g :: gs ∧
    CodePoint.isIdentifierStart g.code = true ∧ ∀ g' ∈ g :: gs, CodePoint.isIdentifierPart g'.code = true := by
  cases hgs : Utf8.glyphs x with
  | nil => rw [isIdentifier, hgs] at h; cases h
  | cons g gs =>
      rw [isIdentifier, hgs, Bool.and_eq_true, List.all_eq_true] at h
      exact ⟨g, gs, rfl, h.1, List.forall_mem_cons.2 ⟨CodePoint.isIdentifierPart_of_isIdentifierStart h.1, h.2⟩⟩

/-- An identifier is valid text. -/
theorem isValid_of_isIdentifier (h : isIdentifier x = true) : Utf8.isValid x := by
  obtain ⟨g, gs, hgs, -, hpart⟩ := glyphs_of_isIdentifier h
  refine Utf8.isValid_iff.2 fun g' hg' => ?_
  have hne := (CodePoint.ne_of_isIdentifierPart (hpart g' (hgs ▸ hg'))).2
  simp [Utf8.isInvalid, hne]

/-- An identifier has no gap before it. -/
theorem skipGap_identifier (h : isIdentifier x = true) (newline : Bool) (pos : Nat) (hs : List Glyph) :
    skipGap .script newline ⟨pos, Utf8.glyphs x ++ hs⟩ = .ok (⟨pos, Utf8.glyphs x ++ hs⟩, newline) := by
  obtain ⟨g, gs, hgs, hg, -⟩ := glyphs_of_isIdentifier h
  obtain ⟨-, -, -, -, h47, -, -, hend, hblank⟩ := CodePoint.ne_of_isIdentifierStart hg
  rw [hgs]
  exact skipGap_stay hend hblank (absurd · h47) newline pos

/-- An identifier is read up to what ends a word. -/
theorem scanLexeme_identifier (h : isIdentifier x = true) {hs : List Glyph} (hhs : EndsWord hs) (pos : Nat) :
    scanLexeme .script ⟨pos, Utf8.glyphs x ++ hs⟩ =
      .ok { kind := nameKind x, name := x, cursor := ⟨pos + x.length, hs⟩ } := by
  obtain ⟨g, gs, hgs, hg, hpart⟩ := glyphs_of_isIdentifier h
  obtain ⟨h34, h35, h39, h46, -, h96, hdigit, -, -⟩ := CodePoint.ne_of_isIdentifierStart hg
  have hbytes : Utf8.bytesOf (g :: gs) = x := by rw [← hgs, Utf8.bytesOf_glyphs]
  have hstop := skip_append hpart (fun g hg => (hhs g hg).1) pos
  have hname : Glyph.takeBytes x.length (g :: gs ++ hs) = g :: gs := by
    have htake := @Glyph.takeBytes_append (g :: gs) hs fun g' hg' => Glyph.genuine_of_mem (hgs ▸ hg')
    rwa [hbytes] at htake
  have hpeek : ¬ peek ⟨pos + x.length, hs⟩ = some 92 := fun hpeek => by
    obtain ⟨g, hg, hcode⟩ := Option.map_eq_some_iff.1 hpeek
    exact (hhs g hg).2 hcode
  rw [hbytes] at hstop
  rw [hgs, scanLexeme.eq_def]
  simp only [List.cons_append, h34, h35, h39, h46, h96, hdigit, hg, decide_false, Bool.or_self, Bool.false_and,
    Bool.false_eq_true, reduceIte, Bool.true_or]
  simp only [List.cons_append] at hstop hname
  simp only [scanName, skip, hstop, if_neg hpeek, Nat.add_sub_cancel_left, hname, hbytes]
  rfl

/-- A name ends where the text ends, or a blank stands. -/
theorem endsWord_of_apart {gs : List Glyph} (h : Apart gs) : EndsWord gs := by
  obtain rfl | ⟨gs, rfl⟩ := h
  · rintro _ ⟨⟩
  · rintro _ ⟨⟩
    decide

/-- Identifiers and reserved words are read where they stand apart. -/
theorem reads_word (h : isIdentifier x = true) : (word x).Reads where
  valid := isValid_of_isIdentifier h
  length_pos := by
    rw [show (word x).text = x from rfl, List.length_pos_iff]
    rintro rfl
    cases h
  kind := by
    have hkind := nameKind_isName x
    rw [show (word x).kind = nameKind x from rfl]
    constructor <;> rintro heq <;> rw [heq] at hkind <;> cases hkind
  gap newline pos gs _ := skipGap_identifier h newline pos gs
  scan pos _ hgs := scanLexeme_identifier h (endsWord_of_apart hgs) pos

/-! ### Marks -/

/-- A beginning without blanks is a beginning of what stands before the blank. -/
theorem prefix_apart {l m : List Nat} (hl : 32 ∉ l) {hs : List Glyph} (hhs : Apart hs) :
    l <+: m ++ hs.map (·.code) ↔ l <+: m := by
  refine ⟨fun h => ?_, fun h => h.trans (List.prefix_append m _)⟩
  obtain rfl | ⟨hs, rfl⟩ := hhs
  · simpa using h
  · by_cases hlength : l.length ≤ m.length
    · exact List.prefix_of_prefix_length_le h (List.prefix_append m _) hlength
    · have hblank : m ++ [32] <+: m ++ (asciiGlyph 32 :: hs).map (·.code) :=
        (List.prefix_append_right_inj m).2 ⟨hs.map (·.code), rfl⟩
      have hmem := (List.prefix_of_prefix_length_le hblank h (by simp; omega)).subset
        (List.mem_append_right m List.mem_cons_self)
      exact absurd hmem hl

/-- What the first characters of a mark are not. -/
theorem mark_spec {e : Text × TokenKind} (h : e ∈ TokenKind.punctuators) :
    ∃ b bs, e.1 = b :: bs ∧ bs.length ≤ 3 ∧ 32 ∉ e.1 ∧
      (b.toNat ≠ 34 ∧ b.toNat ≠ 35 ∧ b.toNat ≠ 39 ∧ b.toNat ≠ 92 ∧ b.toNat ≠ 96) ∧
      (CodePoint.isDigit b.toNat = false ∧ CodePoint.isIdentifierStart b.toNat = false ∧
        isLineEnd b.toNat = false ∧ CodePoint.isBlank b.toNat = false) ∧
      (∀ c ∈ bs, c.toNat ≠ 47 ∧ (b.toNat = 47 → c.toNat ≠ 42) ∧ CodePoint.isDigit c.toNat = false) := by
  obtain ⟨t, k⟩ := e
  cases t with
  | nil => exact absurd rfl (ascii_of_mem_punctuators h).1
  | cons b bs =>
      refine ⟨b, bs, rfl, ?_⟩
      have hall : ∀ e ∈ TokenKind.punctuators, e.1.tail.length ≤ 3 ∧ 32 ∉ e.1 ∧
          (∀ b ∈ e.1.take 1, (b.toNat ≠ 34 ∧ b.toNat ≠ 35 ∧ b.toNat ≠ 39 ∧ b.toNat ≠ 92 ∧ b.toNat ≠ 96) ∧
            (CodePoint.isDigit b.toNat = false ∧ CodePoint.isIdentifierStart b.toNat = false ∧
              isLineEnd b.toNat = false ∧ CodePoint.isBlank b.toNat = false) ∧
            (∀ c ∈ e.1.tail, c.toNat ≠ 47 ∧ (b.toNat = 47 → c.toNat ≠ 42) ∧ CodePoint.isDigit c.toNat = false)) := by
        decide +kernel
      obtain ⟨hlength, hblank, hhead⟩ := hall _ h
      exact ⟨hlength, hblank, hhead b List.mem_cons_self⟩

/-- A punctuator that ends at a blank is read as itself, not as part of a longer one. -/
theorem punctuator?_apart {e : Text × TokenKind} (he : e ∈ TokenKind.punctuators) (hne : e.2 ≠ .questionDot)
    {hs : List Glyph} (hhs : Apart hs) : punctuator? (ascii e.1 ++ hs) = some e := by
  have hfirst : ∀ e ∈ TokenKind.punctuators, e.2 ≠ .questionDot →
      (TokenKind.punctuators.find? fun p => p.1.isPrefixOf e.1) = some e ∧
        ∀ p ∈ TokenKind.punctuators, p.2 = .questionDot → p.1.isPrefixOf e.1 = false := by
    decide +kernel
  obtain ⟨hfind, hquestion⟩ := hfirst e he hne
  rw [punctuator?, ← hfind]
  refine List.find?_congr fun p hp => ?_
  obtain ⟨b, bs, htext, hlength, hblank, -⟩ := mark_spec hp
  have hcodes : (ascii e.1).map (·.code) = e.1.map (·.toNat) := by simp [ascii, Function.comp_def]
  have hstart : (p.1.map (·.toNat)).isPrefixOf (((ascii e.1 ++ hs).take 4).map (·.code)) = p.1.isPrefixOf e.1 := by
    have hnot : 32 ∉ p.1.map (·.toNat) := by
      rintro hmem
      obtain ⟨c, hc, h32⟩ := List.mem_map.1 hmem
      exact hblank (UInt8.toNat_inj.1 (show c.toNat = (32 : UInt8).toNat from h32) ▸ hc)
    have hshort : (p.1.map (·.toNat)).length ≤ 4 := by
      rw [List.length_map, htext, List.length_cons]
      omega
    rw [Bool.eq_iff_iff, List.isPrefixOf_iff_prefix, List.isPrefixOf_iff_prefix, List.map_take, List.map_append, hcodes,
      List.prefix_take_iff, prefix_apart hnot hhs,
      List.prefix_map_iff_of_injective fun _ _ => UInt8.toNat_inj.1]
    exact and_iff_left hshort
  dsimp only
  rw [hstart]
  by_cases hk : p.2 = .questionDot
  · rw [hquestion p hp hk, Bool.false_and]
  · simp [hk]

theorem steps_ascii (t : Text) (pos : Nat) (hs : List Glyph) :
    steps t.length ⟨pos, ascii t ++ hs⟩ = ⟨pos + t.length, hs⟩ := by
  induction t generalizing pos with
  | nil => rfl
  | cons b t ih =>
      have hrest := ih (pos + 1)
      rw [show pos + 1 + t.length = pos + (b :: t).length by rw [List.length_cons]; omega] at hrest
      exact hrest

/-- Marks are read where they stand apart. -/
theorem reads_mark {e : Text × TokenKind} (he : e ∈ TokenKind.punctuators) (hne : e.2 ≠ .questionDot) :
    (Piece.mk e.2 e.1 []).Reads := by
  obtain ⟨b, bs, htext, -, -, ⟨h34, h35, h39, h92, h96⟩, ⟨hdigit, hstart, hend, hblank⟩, hrest⟩ := mark_spec he
  have hascii := (ascii_of_mem_punctuators he).2
  have hglyphs : Utf8.glyphs e.1 = ascii e.1 := glyphs_ascii fun c hc => (hascii c hc).2
  have hother : e.2 ≠ .endOfFile ∧ e.2 ≠ .invalid := by
    have hall : ∀ e ∈ TokenKind.punctuators, e.2 ≠ .endOfFile ∧ e.2 ≠ .invalid := by decide
    exact hall e he
  refine ⟨Utf8.isValid_iff.2 fun g hg => ?_, ?_, hother, ?_, ?_⟩
  · rw [hglyphs] at hg
    obtain ⟨c, hc, rfl⟩ := List.mem_map.1 hg
    have hlt := (hascii c hc).2
    have hne : c.toNat ≠ Utf8.replacement := by
      unfold Utf8.replacement
      omega
    simp [Utf8.isInvalid, hne]
  · simp [htext]
  · intro newline pos hs hhs
    rw [hglyphs, htext]
    -- a mark begins no comment
    refine skipGap_stay hend hblank (fun h47 g hg => ?_) newline pos
    cases bs with
    | nil =>
        obtain rfl | ⟨hs, rfl⟩ := hhs
        · cases hg
        · cases hg
          decide
    | cons c cs =>
        cases hg
        exact ⟨(hrest c List.mem_cons_self).1, (hrest c List.mem_cons_self).2.1 h47⟩
  · intro pos hs hhs
    have hpunctuator := punctuator?_apart he hne hhs
    have hsteps := steps_ascii e.1 pos hs
    -- a point begins a number only before a digit
    have hpoint : (b.toNat = 46 && Cursor.sees ⟨pos + 1, ascii bs ++ hs⟩ CodePoint.isDigit : Bool) = false := by
      cases bs with
      | nil => obtain rfl | ⟨hs, rfl⟩ := hhs <;> simp [sees, peek, CodePoint.isDigit, asciiGlyph]
      | cons c cs => simp [sees, peek, (hrest c List.mem_cons_self).2.2]
    rw [hglyphs]
    rw [htext] at hpunctuator hsteps ⊢
    rw [scanLexeme.eq_def]
    simp only [ascii_cons, List.cons_append, asciiGlyph_code, asciiGlyph_width] at hpunctuator hsteps ⊢
    simp only [h34, h35, h39, h92, h96, hdigit, hstart, decide_false, Bool.or_self, Bool.false_or,
      Bool.false_eq_true, reduceIte, hpunctuator]
    rw [htext, hsteps]
    exact if_neg (ne_true_of_eq_false hpoint)

end Piece

/-! ### Numbers -/

namespace Piece

open Lexer Cursor

/-- The text is one number, in any notation. -/
def isNumber (n : Text) : Bool :=
  match Utf8.glyphs n with
  | [] => false
  | g :: gs =>
    let c : Cursor := ⟨g.width, gs⟩
    Utf8.isValid n && (CodePoint.isDigit g.code || (g.code = 46 && c.sees CodePoint.isDigit))
      && scanNumber 0 g.code c = .ok (.number, ⟨n.length, []⟩)

/-- The piece for a number. -/
def number (n : Text) : Piece := { kind := .number, text := n }

/-- Decimal and hexadecimal numbers, fractions, exponents and separators. -/
example : ∀ n ∈ ["0", "42", "0x1F", "1.5e3", ".5", "1_000"], isNumber (Text.ofString n) = true := by
  decide +kernel

end Piece

end ModuleSystem
