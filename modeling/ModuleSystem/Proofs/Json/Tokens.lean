import ModuleSystem.Proofs.Json.Grammar
import ModuleSystem.Proofs.Lexer.Within

/-!
# JSON — the tokens of a text

What the lexer reads where a part of a JSON text stands (`Reads`): a mark, a constant, a number, a string or
the end.  After white space the part is read as one token, and the lexer is left at what follows
(`Ahead.next`).  A number or a constant goes on as long as its characters do, so what follows must end it
(`Ends`).
-/

namespace ModuleSystem

open Utf8 Lexer Cursor

namespace Json

/-! ### ASCII texts -/

/-- The characters of an ASCII text before another text are its bytes. -/
theorem glyphs_append_ascii {t : Text} (h : ∀ b ∈ t, b.toNat < 128) (u : Text) :
    glyphs (t ++ u) = ascii t ++ glyphs u := by
  have hvalid : isValid t := isValid_iff.2 fun g hg => (genuine_ascii h g (glyphs_ascii h ▸ hg)).2
  rw [glyphs_append hvalid, glyphs_ascii h]

/-- White space is ASCII. -/
theorem IsSpace.ascii {t : Text} (h : IsSpace t) : ∀ b ∈ t, b.toNat < 128 := by
  intro b hb
  obtain rfl | rfl | rfl | rfl := h b hb <;> decide

theorem AreDigits.ascii {t : Text} (h : AreDigits t) : ∀ b ∈ t, b.toNat < 128 :=
  fun b hb => (CodePoint.ascii_of_isDigit (h.2 b hb)).2

/-! ### White space -/

/-- A token can start there: it is neither white space nor a comment. -/
def Starts (gs : List Glyph) : Prop :=
  ∀ g ∈ gs.head?, isLineEnd g.code = false ∧ CodePoint.isBlank g.code = false ∧ g.code ≠ 47

/-- White space is skipped up to what starts a token. -/
theorem skipGap_space {space : Text} (h : IsSpace space) {rest : List Glyph} (hrest : Starts rest)
    (newline : Bool) (pos : Nat) : ∃ newline',
      skipGap .json newline ⟨pos, ascii space ++ rest⟩ = .ok (⟨pos + space.length, rest⟩, newline') := by
  induction space generalizing newline pos with
  | nil => exact ⟨newline, skipGap_blanks .json newline 0 pos hrest⟩
  | cons b space ih =>
      obtain ⟨hb, hspace⟩ := List.forall_mem_cons.1 h
      have hwhite : isLineEnd b.toNat = true ∨ (isLineEnd b.toNat = false ∧ CodePoint.isBlank b.toNat = true) := by
        obtain rfl | rfl | rfl | rfl := hb <;> decide
      rw [List.length_cons, ← Nat.add_assoc, Nat.add_right_comm]
      unfold skipGap
      rw [ascii_cons, List.cons_append, skipGapFrom.eq_def]
      obtain hend | ⟨hend, hblank⟩ := hwhite
      · obtain ⟨newline', hskip⟩ := ih hspace true (pos + 1)
        exact ⟨newline', by simpa only [skipGap, asciiGlyph_code, asciiGlyph_width, hend, reduceIte] using hskip⟩
      · obtain ⟨newline', hskip⟩ := ih hspace newline (pos + 1)
        refine ⟨newline', ?_⟩
        simpa only [skipGap, asciiGlyph_code, asciiGlyph_width, hend, hblank, Bool.false_eq_true, reduceIte] using hskip

/-! ### Reading a part -/

/-- The lexer has read up to `pos`, and `rest` follows. -/
structure Ahead (lx : Lexer) (pos : Nat) (rest : Text) : Prop where
  dialect : lx.dialect = .json
  valid : lx.token.kind ≠ .invalid
  stop : lx.token.stop = pos
  cursor : lx.cursor = ⟨pos, glyphs rest⟩

/-- The part `word` of a text is read as one token when `rest` follows. -/
structure Reads (kind : TokenKind) (units : List UInt16) (word rest : Text) : Prop where
  valid : kind ≠ .invalid
  starts : Starts (glyphs (word ++ rest))
  scans : ∀ pos, ∃ name, scanLexeme .json ⟨pos, glyphs (word ++ rest)⟩ =
    .ok { kind, cursor := ⟨pos + word.length, glyphs rest⟩, units, name }

variable {lx : Lexer} {pos : Nat} {kind : TokenKind} {units : List UInt16} {space word rest : Text} {gs : List Glyph}

/-- The next token is the part behind the white space. -/
theorem Ahead.next (h : Ahead lx pos (space ++ (word ++ rest))) (hspace : IsSpace space)
    (hword : Reads kind units word rest) : ∃ lx', lx.next = .ok lx' ∧ lx'.token.kind = kind ∧
      lx'.token.units = units ∧ lx'.token.range = ⟨pos + space.length, word.length⟩ ∧
      Ahead lx' (pos + space.length + word.length) rest := by
  obtain ⟨newline, hgap⟩ := skipGap_space hspace hword.starts (lx.token.stop = 0) pos
  rw [← glyphs_append_ascii hspace.ascii, ← h.cursor, ← h.dialect] at hgap
  obtain ⟨name, hscan⟩ := hword.scans (pos + space.length)
  rw [← h.dialect] at hscan
  refine ⟨_, next_eq h.valid hgap hscan, rfl, rfl, ?_, h.dialect, hword.valid, rfl, rfl⟩
  simp [Token.range, Range.between, onto]

/-! ### Marks -/

/-- The marks of JSON that no other token begins with. -/
def marks : List (UInt8 × TokenKind) :=
  [(91, .openBracket), (93, .closeBracket), (123, .openBrace), (125, .closeBrace), (44, .comma), (58, .colon)]

/-- A character in ASCII that starts neither white space nor a comment, a name, a string or a number. -/
def isMark (b : UInt8) : Bool :=
  b.toNat < 128 && !(([34, 35, 39, 46, 47, 92, 96] : List Nat).contains b.toNat) && !CodePoint.isDigit b.toNat
    && !CodePoint.isIdentifierStart b.toNat && !isLineEnd b.toNat && !CodePoint.isBlank b.toNat

/-- A mark is read as the punctuator that it is. -/
theorem reads_of_punctuator? {b : UInt8} (hb : isMark b = true) (hkind : kind ≠ .invalid)
    (h : punctuator? (asciiGlyph b :: glyphs rest) = some ([b], kind)) : Reads kind [] [b] rest := by
  simp only [isMark, Bool.and_eq_true, decide_eq_true_eq, Bool.not_eq_true', List.contains_eq_mem, List.mem_cons,
    List.not_mem_nil, or_false, decide_eq_false_iff_not, not_or] at hb
  obtain ⟨⟨⟨⟨⟨hascii, h34, h35, h39, h46, h47, h92, h96⟩, hdigit⟩, hname⟩, hend⟩, hblank⟩ := hb
  have hglyphs : glyphs ([b] ++ rest) = asciiGlyph b :: glyphs rest :=
    glyphs_append_ascii (List.forall_mem_singleton.2 hascii) rest
  refine ⟨hkind, ?_, fun pos => ⟨[], ?_⟩⟩
  · rw [hglyphs]
    rintro _ ⟨⟩
    exact ⟨hend, hblank, h47⟩
  · rw [hglyphs, scanLexeme.eq_def]
    simp [h, h34, h35, h39, h46, h92, h96, hdigit, hname, steps, step]

/-- Each of the marks is read as its token, whatever comes behind it. -/
theorem reads_mark {b : UInt8} (h : (b, kind) ∈ marks) : Reads kind [] [b] rest := by
  have hall : ∀ p ∈ marks, isMark p.1 = true ∧ p.2 ≠ .invalid ∧ p.2 ≠ .questionDot ∧
      TokenKind.punctuators.filter (fun q => q.1.head? = some p.1) = [] ++ [([p.1], p.2)] := by
    decide
  obtain ⟨hb, hkind, hquestion, hfilter⟩ := hall _ h
  exact reads_of_punctuator? hb hkind (punctuator?_alone [] hfilter hquestion (by simp))

theorem reads_openBracket : Reads .openBracket [] [91] rest := reads_mark (by decide)

theorem reads_closeBracket : Reads .closeBracket [] [93] rest := reads_mark (by decide)

theorem reads_openBrace : Reads .openBrace [] [123] rest := reads_mark (by decide)

theorem reads_closeBrace : Reads .closeBrace [] [125] rest := reads_mark (by decide)

theorem reads_comma : Reads .comma [] [44] rest := reads_mark (by decide)

theorem reads_colon : Reads .colon [] [58] rest := reads_mark (by decide)

/-- A minus sign is a token of its own unless another one or an equals sign follows. -/
theorem reads_minus (h : ∀ g ∈ (glyphs rest).head?, g.code ≠ 45 ∧ g.code ≠ 61) : Reads .minus [] [45] rest := by
  refine reads_of_punctuator? (by decide) (by decide)
    (punctuator?_alone [("--", .minusMinus), ("-=", .minusAssign)] (by decide) (by decide) fun p hp => ?_)
  simp only [List.mem_cons, List.not_mem_nil, or_false] at hp
  obtain rfl | rfl := hp
  · exact ⟨45, rfl, fun g hg => (h g hg).1⟩
  · exact ⟨61, rfl, fun g hg => (h g hg).2⟩

/-! ### Words, strings and the end -/

/-- What stands there ends a constant or a number: white space, a comma, a closing bracket, or nothing. -/
def Ends (t : Text) : Prop := ∀ g ∈ (glyphs t).head?, g.code ∈ [32, 9, 10, 13, 44, 93, 125]

theorem ends_nil : Ends [] := by simp [Ends]

/-- A text that starts with one of the characters that end a value ends it. -/
theorem ends_cons {b : UInt8} (h : b.toNat ∈ [32, 9, 10, 13, 44, 93, 125]) (t : Text) : Ends (b :: t) := by
  have hascii : b.toNat < 128 := by
    have hall : ∀ c ∈ [32, 9, 10, 13, 44, 93, 125], c < 128 := by decide
    exact hall _ h
  have hglyphs : glyphs (b :: t) = asciiGlyph b :: glyphs t :=
    glyphs_append_ascii (List.forall_mem_singleton.2 hascii) t
  unfold Ends
  rw [hglyphs]
  rintro _ ⟨⟩
  exact h

/-- White space ends what stands before it. -/
theorem ends_space (h : Ends rest) (hspace : IsSpace space) : Ends (space ++ rest) := by
  cases space with
  | nil => exact h
  | cons b space =>
      refine ends_cons ?_ _
      obtain rfl | rfl | rfl | rfl := hspace b List.mem_cons_self <;> decide

/-- The kinds of constants. -/
def isConstantKind (k : TokenKind) : Bool := k == .kwTrue || k == .kwFalse || k == .kwNull

/-- A constant is read as its keyword. -/
theorem reads_constant (h : IsConstant word) (hrest : Ends rest) :
    ∃ kind, isConstantKind kind = true ∧ Reads kind [] word rest := by
  have hend : EndsWord (glyphs rest) := fun g hg => by
    have hall : ∀ c ∈ [32, 9, 10, 13, 44, 93, 125], CodePoint.isIdentifierPart c = false ∧ c ≠ 92 := by decide
    exact hall _ (hrest g hg)
  have hword : IsWord word ∧ isConstantKind (nameKind word) = true := by
    obtain rfl | rfl | rfl := h <;> decide
  have hkind : ∀ k, isConstantKind k = true → k ≠ .invalid := by
    rintro _ h rfl
    cases h
  refine ⟨nameKind word, hword.2, hkind _ hword.2, ?_, fun pos => ⟨word, ?_⟩⟩
  · rw [glyphs_append_ascii hword.1.ascii]
    exact no_gap_of_isWord hword.1 _
  · rw [glyphs_append_ascii hword.1.ascii]
    exact scanLexeme_word hword.1 .json pos hend

/-- A string is read as the code units that it spells. -/
theorem reads_string (ls : Letters) : Reads .string ls.units ls.text rest := by
  have hglyphs : glyphs (ls.text ++ rest) = glyphs ls.text ++ glyphs rest := glyphs_append (isValid_quoted ls.2)
  refine ⟨by decide, ?_, fun pos => ⟨[], ?_⟩⟩
  · rw [hglyphs, Letters.text, glyphs_quoted ls.2]
    rintro _ ⟨⟩
    decide
  · rw [hglyphs]
    exact scanLexeme_string ls.2 .json pos (glyphs rest)

theorem reads_end : Reads .endOfFile [] [] [] := ⟨by decide, by rintro _ ⟨⟩, fun _ => ⟨[], rfl⟩⟩

/-! ### Numbers -/

/-- Digits do not go on there. -/
def NoDigit (gs : List Glyph) : Prop := ∀ g ∈ gs.head?, g.code ≠ 95 ∧ CodePoint.isDigit g.code = false

/-- The digits of base ten are the decimal digits. -/
theorem isDigitOf_ten (c : Nat) : isDigitOf 10 c = CodePoint.isDigit c := by
  rw [Bool.eq_iff_iff]
  unfold isDigitOf CodePoint.hexValue? CodePoint.isDigit
  split_ifs <;> simp_all <;> omega

/-- Digits are skipped up to a character that is none. -/
theorem skipDigits_ascii {ds : Text} (h : ∀ b ∈ ds, CodePoint.isDigit b.toNat = true) (hgs : NoDigit gs)
    (pos : Nat) : skipDigits 10 ⟨pos, ascii ds ++ gs⟩ = .ok ⟨pos + ds.length, gs⟩ := by
  unfold skipDigits
  induction ds generalizing pos with
  | nil =>
      cases gs with
      | nil => rfl
      | cons g gs =>
          obtain ⟨hline, hdigit⟩ := hgs g rfl
          rw [ascii_nil, List.nil_append, digitsEnd.eq_def]
          simp [hline, isDigitOf_ten, hdigit]
  | cons b ds ih =>
      obtain ⟨hb, hds⟩ := List.forall_mem_cons.1 h
      have hline : b.toNat ≠ 95 := by
        intro hcode
        rw [hcode] at hb
        cases hb
      have hrest := ih hds (pos + 1)
      rw [ascii_cons, List.cons_append, digitsEnd.eq_def]
      simp only [asciiGlyph_code, hline, isDigitOf_ten, hb, reduceIte]
      rw [hrest, List.length_cons, Nat.add_assoc, Nat.add_comm 1]

/-- A number is over there, up to the parts that have not been read: a point, an exponent, or what ends it. -/
def Pauses (gs : List Glyph) : Prop :=
  ∀ g ∈ gs.head?, g.code ∈ [46, 101, 69, 32, 9, 10, 13, 44, 93, 125]

theorem Pauses.noDigit (h : Pauses gs) : NoDigit gs := fun g hg => by
  have hall : ∀ c ∈ [46, 101, 69, 32, 9, 10, 13, 44, 93, 125], c ≠ 95 ∧ CodePoint.isDigit c = false := by decide
  exact hall _ (h g hg)

/-- Where no digit stands, none is seen. -/
theorem NoDigit.sees (h : NoDigit gs) : Cursor.sees ⟨pos, gs⟩ CodePoint.isDigit = false := by
  cases gs with
  | nil => rfl
  | cons g gs => exact (h g rfl).2

/-- Where a number pauses, no base is announced. -/
theorem Pauses.baseOf? (h : Pauses gs) : (Cursor.peek ⟨pos, gs⟩).bind baseOf? = none := by
  have hall : ∀ c ∈ [46, 101, 69, 32, 9, 10, 13, 44, 93, 125], Lexer.baseOf? c = none := by decide
  cases gs with
  | nil => rfl
  | cons g gs => exact hall _ (h g rfl)

/-- Where a value ends, a number pauses. -/
theorem pauses_of_ends (h : Ends rest) : Pauses (glyphs rest) := fun g hg => by
  have hall : ∀ c ∈ [32, 9, 10, 13, 44, 93, 125], c ∈ [46, 101, 69, 32, 9, 10, 13, 44, 93, 125] := by decide
  exact hall _ (h g hg)

/-- A number pauses before its exponent. -/
theorem pauses_power {exponent : Option Exponent} (hgs : Pauses gs) : Pauses (ascii (Numeral.power exponent) ++ gs) := by
  cases exponent with
  | none => exact hgs
  | some e =>
      rintro _ ⟨⟩
      obtain hletter | hletter := e.letter_eq <;> simp [hletter]

/-- A number pauses before its fraction. -/
theorem pauses_point {fraction : Option Digits} (hgs : Pauses gs) : Pauses (ascii (Numeral.point fraction) ++ gs) := by
  cases fraction with
  | none => exact hgs
  | some digits =>
      rintro _ ⟨⟩
      decide

/-- There is a first digit. -/
theorem AreDigits.exists_cons {ds : Text} (h : AreDigits ds) :
    ∃ b ds', ds = b :: ds' ∧ CodePoint.isDigit b.toNat = true := by
  obtain ⟨b, ds', rfl⟩ := List.exists_cons_of_ne_nil h.1
  exact ⟨b, ds', rfl, h.2 b List.mem_cons_self⟩

/-- A digit is none of the characters that mean something else in a number or before it. -/
theorem ne_of_isDigit {c : Nat} (h : CodePoint.isDigit c = true) : c ∉ [34, 35, 39, 43, 45, 46, 61, 92, 95, 96] := by
  rintro hmem
  have hall : ∀ c ∈ [34, 35, 39, 43, 45, 46, 61, 92, 95, 96], CodePoint.isDigit c = false := by decide
  rw [hall c hmem] at h
  cases h

/-- A digit starts a token. -/
theorem starts_of_isDigit {c : Nat} (h : CodePoint.isDigit c = true) :
    isLineEnd c = false ∧ CodePoint.isBlank c = false ∧ c ≠ 47 := by
  have hall : ∀ c < 128, CodePoint.isDigit c = true → isLineEnd c = false ∧ CodePoint.isBlank c = false ∧ c ≠ 47 := by
    decide
  exact hall c (CodePoint.ascii_of_isDigit h).2 h

/-- A fraction is read as its point and its digits. -/
theorem scanFraction_digits (digits : Digits) (hgs : NoDigit gs) (pos : Nat) :
    scanFraction ⟨pos, asciiGlyph 46 :: (ascii digits.1 ++ gs)⟩ = .ok ⟨pos + (digits.1.length + 1), gs⟩ := by
  obtain ⟨b, ds, hds, hb⟩ := digits.2.exists_cons
  have hline : ¬ peek ⟨pos + 1, ascii digits.1 ++ gs⟩ = some 95 := by
    have hne := ne_of_isDigit hb
    rw [hds]
    simp_all [peek]
  refine (if_neg hline).trans ?_
  rw [Nat.add_comm digits.1.length, ← Nat.add_assoc]
  exact skipDigits_ascii digits.2.2 hgs (pos + 1)

/-- The fraction of a number, or nothing. -/
theorem scan_point (fraction : Option Digits) (hgs : NoDigit gs) (hpoint : ∀ g ∈ gs.head?, g.code ≠ 46) (pos : Nat) :
    (if peek ⟨pos, ascii (Numeral.point fraction) ++ gs⟩ = some 46
      then scanFraction ⟨pos, ascii (Numeral.point fraction) ++ gs⟩
      else .ok ⟨pos, ascii (Numeral.point fraction) ++ gs⟩) =
      .ok ⟨pos + (Numeral.point fraction).length, gs⟩ := by
  cases fraction with
  | none =>
      refine if_neg fun hpeek => ?_
      obtain ⟨g, hg, hcode⟩ := Option.map_eq_some_iff.1 hpeek
      exact hpoint g hg hcode
  | some digits => exact (if_pos rfl).trans (scanFraction_digits digits hgs pos)

/-- An exponent is read from its first digit on, behind the sign. -/
theorem scanExponent_eq {c c' : Cursor}
    (h : (if c.step.sees (fun d => d = 43 || d = 45) then c.step.step else c.step) = c')
    (hdigit : c'.sees CodePoint.isDigit = true) : scanExponent c = skipDigits 10 c' := by
  subst h
  exact if_pos hdigit

/-- An exponent is read as it is written. -/
theorem scanExponent_text (e : Exponent) (hgs : NoDigit gs) (pos : Nat) :
    scanExponent ⟨pos, ascii e.text ++ gs⟩ = .ok ⟨pos + e.text.length, gs⟩ := by
  obtain ⟨b, ds, hds, hb⟩ := e.digits.2.exists_cons
  -- the sign is passed, if there is one
  have hsign : (if sees ⟨pos + 1, ascii (e.sign ++ e.digits.1) ++ gs⟩ (fun d => d = 43 || d = 45)
      then step ⟨pos + 1, ascii (e.sign ++ e.digits.1) ++ gs⟩
      else ⟨pos + 1, ascii (e.sign ++ e.digits.1) ++ gs⟩) =
      ⟨pos + 1 + e.sign.length, ascii e.digits.1 ++ gs⟩ := by
    obtain hsign | hsign | hsign := e.sign_eq
    · have hne := ne_of_isDigit hb
      rw [hsign, hds]
      simp_all [sees, peek]
    · rw [hsign]; rfl
    · rw [hsign]; rfl
  have hdigit : sees ⟨pos + 1 + e.sign.length, ascii e.digits.1 ++ gs⟩ CodePoint.isDigit = true := by
    rw [hds]
    exact hb
  have hlength : pos + 1 + e.sign.length + e.digits.1.length = pos + e.text.length := by
    simp only [Exponent.text, List.length_append, List.length_cons]
    omega
  rw [scanExponent_eq (c := ⟨pos, ascii e.text ++ gs⟩) hsign hdigit, skipDigits_ascii e.digits.2.2 hgs, hlength]

/-- The exponent of a number, or nothing. -/
theorem scan_power (exponent : Option Exponent) (hgs : NoDigit gs)
    (hpower : ∀ g ∈ gs.head?, g.code ≠ 101 ∧ g.code ≠ 69) (pos : Nat) :
    (if sees ⟨pos, ascii (Numeral.power exponent) ++ gs⟩ (fun d => d = 101 || d = 69)
      then scanExponent ⟨pos, ascii (Numeral.power exponent) ++ gs⟩
      else .ok ⟨pos, ascii (Numeral.power exponent) ++ gs⟩) =
      .ok ⟨pos + (Numeral.power exponent).length, gs⟩ := by
  cases exponent with
  | none =>
      refine if_neg fun hsees => ?_
      obtain ⟨code, hpeek, hcode⟩ := sees_eq_true hsees
      obtain ⟨g, hg, rfl⟩ := Option.map_eq_some_iff.1 hpeek
      have hne := hpower g hg
      simp [hne] at hcode
  | some e =>
      have hletter : sees ⟨pos, ascii e.text ++ gs⟩ (fun d => d = 101 || d = 69) = true := by
        obtain h | h := e.letter_eq <;> simp [Exponent.text, sees, peek, h]
      exact (if_pos hletter).trans (scanExponent_text e hgs pos)

/-- What follows a number. -/
theorem ne_of_ends {g : Glyph} (h : g.code ∈ [32, 9, 10, 13, 44, 93, 125]) :
    g.code ≠ 46 ∧ g.code ≠ 101 ∧ g.code ≠ 69 ∧ g.code ≠ 110 ∧ g.code ≠ 92 ∧
      CodePoint.isIdentifierStart g.code = false := by
  have hall : ∀ c ∈ [32, 9, 10, 13, 44, 93, 125], c ≠ 46 ∧ c ≠ 101 ∧ c ≠ 69 ∧ c ≠ 110 ∧ c ≠ 92 ∧
      CodePoint.isIdentifierStart c = false := by
    decide
  exact hall _ h

/-- A number pauses behind its whole part. -/
theorem pauses_parts (n : Numeral) (hrest : Ends rest) :
    Pauses (ascii (Numeral.point n.fraction) ++ (ascii (Numeral.power n.exponent) ++ glyphs rest)) :=
  pauses_point (pauses_power (pauses_of_ends hrest))

/-- A leading zero is the only digit. -/
theorem pauses_of_zero (n : Numeral) {b : UInt8} {ds : Text} (hwhole : n.whole.1 = b :: ds) (hb : b.toNat = 48)
    (hrest : Ends rest) : Pauses
      (ascii ds ++ (ascii (Numeral.point n.fraction) ++ (ascii (Numeral.power n.exponent) ++ glyphs rest))) := by
  obtain rfl : b = 48 := UInt8.toNat_inj.1 hb
  obtain ⟨-, rfl⟩ := List.cons_eq_cons.1 (hwhole.symm.trans (n.zero (by rw [hwhole]; rfl)))
  exact pauses_parts n hrest

/-- A numeral is read from its second digit on, with its fraction and its exponent. -/
theorem scanDecimal_numeral (n : Numeral) {b : UInt8} {ds : Text} (hwhole : n.whole.1 = b :: ds)
    (hrest : Ends rest) (start pos : Nat) :
    scanDecimal start b.toNat
      ⟨pos, ascii ds ++ (ascii (Numeral.point n.fraction) ++ (ascii (Numeral.power n.exponent) ++ glyphs rest))⟩ =
      .ok (.number, ⟨pos + ds.length + (Numeral.point n.fraction).length + (Numeral.power n.exponent).length,
        glyphs rest⟩) := by
  have hdigit : CodePoint.isDigit b.toNat = true := n.whole.2.2 b (by rw [hwhole]; exact List.mem_cons_self)
  have hds : ∀ b ∈ ds, CodePoint.isDigit b.toNat = true := fun b hb =>
    n.whole.2.2 b (by rw [hwhole]; exact List.mem_cons_of_mem _ hb)
  have hpower : Pauses (ascii (Numeral.power n.exponent) ++ glyphs rest) := pauses_power (pauses_of_ends hrest)
  have hoctal : (decide (b.toNat = 48) && sees ⟨pos, ascii ds ++ (ascii (Numeral.point n.fraction) ++
      (ascii (Numeral.power n.exponent) ++ glyphs rest))⟩ CodePoint.isDigit) = false := by
    by_cases hb : b.toNat = 48
    · rw [(pauses_of_zero n hwhole hb hrest).noDigit.sees, Bool.and_false]
    · rw [decide_eq_false hb, Bool.false_and]
  have hfirst : b.toNat ≠ 46 := by
    have := ne_of_isDigit hdigit
    simp_all
  have hnext : ∀ g ∈ (ascii (Numeral.power n.exponent) ++ glyphs rest).head?, g.code ≠ 46 := by
    cases n.exponent with
    | none => exact fun g hg => (ne_of_ends (hrest g hg)).1
    | some e =>
        rintro _ ⟨⟩
        obtain hletter | hletter := e.letter_eq <;> simp [hletter]
  rw [scanDecimal_eq, skipDigits_ascii hds (pauses_parts n hrest).noDigit, ok_bind]
  dsimp only
  rw [hoctal]
  simp only [hfirst, Bool.not_false, Bool.and_true, ne_eq, not_false_eq_true, decide_true, Bool.true_and,
    decide_eq_true_eq]
  rw [scan_point n.fraction hpower.noDigit hnext, ok_bind,
    scan_power n.exponent (pauses_of_ends hrest).noDigit fun g hg =>
      ⟨(ne_of_ends (hrest g hg)).2.1, (ne_of_ends (hrest g hg)).2.2.1⟩, ok_bind]
  -- no letter of a big integer follows
  refine if_neg fun hbig => ?_
  simp only [Bool.and_eq_true, decide_eq_true_eq] at hbig
  obtain ⟨g, hg, hcode⟩ := Option.map_eq_some_iff.1 hbig.1.1.1
  exact (ne_of_ends (hrest g hg)).2.2.2.1 hcode

/-- The characters of a numeral are its bytes. -/
theorem Numeral.glyphs_append (n : Numeral) (rest : Text) : glyphs (n.text ++ rest) = ascii n.text ++ glyphs rest := by
  refine glyphs_append_ascii (fun b hb => ?_) rest
  have hpoint : ∀ b ∈ point n.fraction, b.toNat < 128 := by
    cases n.fraction with
    | none => simp [point]
    | some digits => exact List.forall_mem_cons.2 ⟨by decide, digits.2.ascii⟩
  have hpower : ∀ b ∈ power n.exponent, b.toNat < 128 := by
    cases n.exponent with
    | none => simp [power]
    | some e =>
        refine List.forall_mem_cons.2 ⟨by obtain h | h := e.letter_eq <;> rw [h] <;> decide, fun b hb => ?_⟩
        obtain hb | hb := List.mem_append.1 hb
        · obtain h | h | h := e.sign_eq <;> simp_all
        · exact e.digits.2.ascii b hb
  simp only [text, List.mem_append] at hb
  obtain (hb | hb) | hb := hb
  · exact n.whole.2.ascii b hb
  · exact hpoint b hb
  · exact hpower b hb

/-- A numeral is read as one number where a value may end. -/
theorem reads_numeral (n : Numeral) (hrest : Ends rest) : Reads .number [] n.text rest := by
  obtain ⟨b, ds, hwhole, hdigit⟩ := n.whole.2.exists_cons
  have htext : ascii n.text ++ glyphs rest = asciiGlyph b :: (ascii ds ++ (ascii (Numeral.point n.fraction) ++
      (ascii (Numeral.power n.exponent) ++ glyphs rest))) := by
    simp [Numeral.text, hwhole]
  have hlength : n.text.length = 1 + ds.length + (Numeral.point n.fraction).length +
      (Numeral.power n.exponent).length := by
    simp only [Numeral.text, hwhole, List.length_append, List.length_cons]
    omega
  refine ⟨by decide, ?_, fun pos => ⟨[], ?_⟩⟩
  · rw [n.glyphs_append, htext]
    rintro _ ⟨⟩
    exact starts_of_isDigit hdigit
  · -- a leading zero is followed by no letter of a base
    have hbase : (if b.toNat = 48 then (peek ⟨pos + 1, ascii ds ++ (ascii (Numeral.point n.fraction) ++
        (ascii (Numeral.power n.exponent) ++ glyphs rest))⟩).bind baseOf? else none) = none := by
      split
      · rename_i hb
        exact (pauses_of_zero n hwhole hb hrest).baseOf?
      · rfl
    -- what follows does not begin a name
    have hname : ¬ sees ⟨pos + n.text.length, glyphs rest⟩ (fun k => CodePoint.isIdentifierStart k || k = 92) = true := by
      intro hsees
      obtain ⟨code, hpeek, hcode⟩ := sees_eq_true hsees
      obtain ⟨g, hg, rfl⟩ := Option.map_eq_some_iff.1 hpeek
      obtain ⟨-, -, -, -, h92, hstart⟩ := ne_of_ends (hrest g hg)
      simp [h92, hstart] at hcode
    have hscan := scanDecimal_numeral n hwhole hrest pos (pos + 1)
    rw [show pos + 1 + ds.length + (Numeral.point n.fraction).length + (Numeral.power n.exponent).length =
      pos + n.text.length by omega] at hscan
    have hnumber : scanNumber pos b.toNat ⟨pos + 1, ascii ds ++ (ascii (Numeral.point n.fraction) ++
        (ascii (Numeral.power n.exponent) ++ glyphs rest))⟩ = .ok (.number, ⟨pos + n.text.length, glyphs rest⟩) := by
      rw [scanNumber_eq, hbase]
      dsimp only
      rw [hscan, ok_bind]
      exact if_neg hname
    have hne := ne_of_isDigit hdigit
    simp only [List.mem_cons, List.not_mem_nil, or_false, not_or] at hne
    rw [n.glyphs_append, htext, scanLexeme.eq_def]
    simp only [asciiGlyph_code, asciiGlyph_width, hne, hdigit, decide_false, Bool.or_self, Bool.false_eq_true,
      reduceIte, Bool.true_or]
    rw [hnumber, ok_bind]
    rfl

end Json

end ModuleSystem
