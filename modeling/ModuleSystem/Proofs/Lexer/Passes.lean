import Mathlib.Data.List.TakeWhile
import ModuleSystem.Lexer
import ModuleSystem.Proofs.Ensures
import ModuleSystem.Proofs.Text.Glyphs

/-!
# The lexer — where a token ends

Every part of the lexer that reads the rest of a token moves a cursor over characters, counting bytes.
`Cursor.Passes` says that a cursor was moved over at least one character, by the bytes of these
characters, and that the last one does not end a line; `Cursor.Reaches` that it was moved so or not at
all.  The statements `…_passes` and `…_reaches` say so of each part.

Bytes are counted by hand where a character is known to be in ASCII, so the glyphs must be what their
bytes are read as (`Glyph.Genuine`).
-/

namespace ModuleSystem

/-- The glyph is what its bytes are read as. -/
def Glyph.Genuine (g : Glyph) : Prop := Utf8.glyphs g.bytes = [g]

namespace Glyph

variable {g : Glyph} {gs hs : List Glyph}

theorem Genuine.mem (h : g.Genuine) : g ∈ Utf8.glyphs g.bytes := by
  rw [h]
  exact List.mem_singleton_self g

theorem Genuine.width (h : g.Genuine) (hcode : g.code < 128) : g.width = 1 :=
  Utf8.width_of_ascii h.mem hcode

theorem Genuine.bytes (h : g.Genuine) (hcode : g.code < 128) : g.bytes = [g.code.toUInt8] :=
  Utf8.bytes_of_ascii h.mem hcode

theorem Genuine.width_pos (h : g.Genuine) : 0 < g.width := Utf8.width_pos_of_mem h.mem

theorem genuine_of_mem {t : Text} (h : g ∈ Utf8.glyphs t) : g.Genuine := Utf8.glyphs_bytes_of_mem h

/-- Glyphs are found again by the number of their bytes. -/
theorem takeBytes_append (h : ∀ g ∈ gs, g.Genuine) :
    takeBytes (Utf8.bytesOf gs).length (gs ++ hs) = gs := by
  induction gs with
  | nil => cases hs <;> rfl
  | cons g gs ih =>
      have hpos := (h g List.mem_cons_self).width_pos
      have hlen : (Utf8.bytesOf (g :: gs)).length = g.width + (Utf8.bytesOf gs).length := by
        rw [Utf8.bytesOf_cons, List.length_append, Glyph.width]
      obtain ⟨n, hn⟩ : ∃ n, (Utf8.bytesOf (g :: gs)).length = n + 1 :=
        ⟨(Utf8.bytesOf (g :: gs)).length - 1, by omega⟩
      rw [hn, List.cons_append, takeBytes, ← hn, hlen, Nat.add_sub_cancel_left,
        ih fun g' hg' => h g' (List.mem_cons_of_mem _ hg')]
      simp

end Glyph

namespace Cursor

/-- The cursor was moved over at least one character, the last of which does not end a line. -/
inductive Passes : Cursor → Cursor → Prop where
  | last {pos : Nat} {g : Glyph} {gs : List Glyph} (h : isLineEnd g.code = false) :
      Passes ⟨pos, g :: gs⟩ ⟨pos + g.width, gs⟩
  | cons {pos : Nat} {g : Glyph} {gs : List Glyph} {c : Cursor}
      (h : Passes ⟨pos + g.width, gs⟩ c) : Passes ⟨pos, g :: gs⟩ c

/-- The cursor was moved over characters, the last of which does not end a line, or not at all. -/
def Reaches (c c' : Cursor) : Prop := c' = c ∨ c.Passes c'

/-- All glyphs at a cursor are what their bytes are read as. -/
def Genuine (c : Cursor) : Prop := ∀ g ∈ c.rest, g.Genuine

variable {c c' c'' : Cursor} {pos : Nat} {g : Glyph} {gs : List Glyph} {p : Nat → Bool}

theorem Genuine.head (h : Genuine ⟨pos, g :: gs⟩) : g.Genuine := h g List.mem_cons_self

theorem Genuine.tail {pos' : Nat} (h : Genuine ⟨pos, g :: gs⟩) : Genuine ⟨pos', gs⟩ :=
  fun g' hg' => h g' (List.mem_cons_of_mem _ hg')

/-- The characters that were passed. -/
theorem Passes.exists_glyphs (h : c.Passes c') : ∃ gs g, c.rest = gs ++ g :: c'.rest ∧
    c'.pos = c.pos + (Utf8.bytesOf (gs ++ [g])).length ∧ isLineEnd g.code = false := by
  induction h with
  | @last pos g gs h => exact ⟨[], g, rfl, by simp [Glyph.width], h⟩
  | @cons pos g gs c h ih =>
      obtain ⟨hs, k, hrest, hpos, hk⟩ := ih
      refine ⟨g :: hs, k, by simpa using hrest, ?_, hk⟩
      simp only [hpos, List.cons_append, Utf8.bytesOf_cons, List.length_append, Glyph.width]
      omega

/-- Characters that are passed in two parts are passed. -/
theorem Passes.trans (h : c.Passes c') (h' : c'.Passes c'') : c.Passes c'' := by
  induction h with
  | last => exact .cons h'
  | cons _ ih => exact .cons (ih h')

/-- Behind the characters that are passed, the characters are genuine too. -/
theorem Passes.genuine (h : c.Passes c') (hc : c.Genuine) : c'.Genuine := by
  obtain ⟨gs, g, hrest, -, -⟩ := h.exists_glyphs
  intro k hk
  exact hc k (by rw [hrest]; simp [hk])

/-- An ASCII character that ends no line may be passed before others. -/
theorem Passes.cons_ascii (hg : g.Genuine) (hcode : g.code < 128)
    (h : Passes ⟨pos + 1, gs⟩ c) : Passes ⟨pos, g :: gs⟩ c := by
  refine .cons ?_
  rw [hg.width hcode]
  exact h

/-- An ASCII character that ends no line is passed by itself. -/
theorem Passes.last_ascii (hg : g.Genuine) (hcode : g.code < 128) (h : isLineEnd g.code = false) :
    Passes ⟨pos, g :: gs⟩ ⟨pos + 1, gs⟩ := by
  have hp : Passes ⟨pos, g :: gs⟩ ⟨pos + g.width, gs⟩ := Passes.last h
  rwa [hg.width hcode] at hp

theorem Reaches.refl (c : Cursor) : c.Reaches c := .inl rfl

theorem Passes.reaches (h : c.Passes c') : c.Reaches c' := .inr h

/-- Characters that are passed may be followed by others, or by none. -/
theorem Passes.then (h : c.Passes c') (h' : c'.Reaches c'') : c.Passes c'' := by
  obtain rfl | h' := h'
  · exact h
  · exact h.trans h'

/-- Characters that are passed may follow others, or none. -/
theorem Reaches.then (h : c.Reaches c') (h' : c'.Passes c'') : c.Passes c'' := by
  obtain rfl | h := h
  · exact h'
  · exact h.trans h'

theorem Reaches.trans (h : c.Reaches c') (h' : c'.Reaches c'') : c.Reaches c'' := by
  obtain rfl | h := h
  · exact h'
  · exact (h.then h').reaches

/-- A cursor that is reached from a genuine one is genuine. -/
theorem Reaches.genuine (h : c.Reaches c') (hc : c.Genuine) : c'.Genuine := by
  obtain rfl | h := h
  · exact hc
  · exact h.genuine hc

/-! ### Steps and runs of characters -/

/-- What is seen is the code point of the first character. -/
theorem peek_eq_some {code : Nat} (h : c.peek = some code) :
    ∃ g gs, c.rest = g :: gs ∧ g.code = code := by
  obtain ⟨pos, rest⟩ := c
  cases rest with
  | nil => cases h
  | cons g gs => exact ⟨g, gs, rfl, by simpa [peek] using h⟩

/-- A character that is seen, and ends no line, is passed by a step. -/
theorem step_passes_of_peek {code : Nat} (h : c.peek = some code) (hcode : isLineEnd code = false) :
    c.Passes c.step := by
  obtain ⟨g, gs, hrest, rfl⟩ := peek_eq_some h
  obtain ⟨pos, rest⟩ := c
  subst hrest
  exact .last hcode

theorem sees_eq_true (h : c.sees p = true) : ∃ code, c.peek = some code ∧ p code = true := by
  rw [sees] at h
  cases hp : c.peek with
  | none => rw [hp] at h; cases h
  | some code => rw [hp] at h; exact ⟨code, rfl, h⟩

/-- A character with a property that no end of a line has is passed by a step. -/
theorem step_passes_of_sees (h : c.sees p = true) (hp : ∀ code, p code = true → isLineEnd code = false) :
    c.Passes c.step := by
  obtain ⟨code, hcode, hsees⟩ := sees_eq_true h
  exact step_passes_of_peek hcode (hp code hsees)

/-- A run of characters ends at the first one that is not of its kind. -/
theorem skip_eq (p : Nat → Bool) (c : Cursor) :
    c.skip p = ⟨c.pos + (Utf8.bytesOf (c.rest.takeWhile fun g => p g.code)).length,
      c.rest.dropWhile fun g => p g.code⟩ := by
  obtain ⟨pos, gs⟩ := c
  rw [skip]
  dsimp only
  induction gs generalizing pos with
  | nil => rfl
  | cons g gs ih =>
      rw [skipFrom]
      by_cases hg : p g.code
      · rw [if_pos hg, ih, List.takeWhile_cons, if_pos hg, List.dropWhile_cons, if_pos hg]
        simp [Glyph.width, Nat.add_assoc]
      · rw [if_neg hg, List.takeWhile_cons, if_neg hg, List.dropWhile_cons, if_neg hg]
        simp

/-- Skipping characters with a property that no end of a line has passes them. -/
theorem skip_reaches (hp : ∀ code, p code = true → isLineEnd code = false) (c : Cursor) :
    c.Reaches (c.skip p) := by
  obtain ⟨pos, gs⟩ := c
  rw [skip]
  dsimp only
  induction gs generalizing pos with
  | nil => exact .refl _
  | cons g gs ih =>
      rw [skipFrom]
      by_cases hg : p g.code
      · rw [if_pos hg]
        exact .inr ((Passes.last (hp _ hg)).then (ih _))
      · rw [if_neg hg]
        exact .refl _

/-- It passes one at least if the first has the property. -/
theorem skip_passes (hp : ∀ code, p code = true → isLineEnd code = false) (h : c.sees p = true) :
    c.Passes (c.skip p) := by
  obtain ⟨code, hcode, hsees⟩ := sees_eq_true h
  obtain ⟨g, gs, hrest, rfl⟩ := peek_eq_some hcode
  obtain ⟨pos, rest⟩ := c
  subst hrest
  rw [skip]
  dsimp only
  rw [skipFrom, if_pos hsees]
  exact (Passes.last (hp _ hsees)).then (skip_reaches hp ⟨_, gs⟩)

end Cursor

/-! ### Characters that do not end a line -/

/-- No ASCII character from 14 on ends a line. -/
theorem isLineEnd_of_ascii {code : Nat} (h : 14 ≤ code) (h' : code < 128) : isLineEnd code = false := by
  simp only [isLineEnd, Bool.or_eq_false_iff, decide_eq_false_iff_not]
  omega

namespace CodePoint

/-- What may begin an identifier may continue it. -/
theorem isIdentifierPart_of_isIdentifierStart {code : Nat} (h : isIdentifierStart code = true) :
    isIdentifierPart code = true := by
  rw [isIdentifierPart]
  split
  · rw [h, Bool.true_or]
  · rename_i hlt
    rw [isIdentifierStart, if_neg hlt] at h
    rw [h, Bool.true_or]

/-- No line terminator, and not what stands for an invalid byte, belongs to an identifier. -/
theorem ne_of_isIdentifierPart {code : Nat} (h : isIdentifierPart code = true) :
    isLineEnd code = false ∧ code ≠ Utf8.replacement := by
  have hnot : isIdentifierPart 10 = false ∧ isIdentifierPart 13 = false ∧
      isIdentifierPart 0x2028 = false ∧ isIdentifierPart 0x2029 = false ∧
      isIdentifierPart Utf8.replacement = false := by
    decide +kernel
  simp only [isLineEnd, Bool.or_eq_false_iff, decide_eq_false_iff_not]
  refine ⟨⟨⟨⟨?_, ?_⟩, ?_⟩, ?_⟩, ?_⟩ <;> rintro rfl <;> simp_all

/-- Hexadecimal digits are ASCII characters that end no line. -/
theorem ascii_of_hexValue? {code v : Nat} (h : hexValue? code = some v) :
    14 ≤ code ∧ code < 128 := by
  simp only [hexValue?, Bool.and_eq_true, decide_eq_true_eq] at h
  split_ifs at h <;> omega

theorem ascii_of_isHex {code : Nat} (h : isHex code = true) : 14 ≤ code ∧ code < 128 := by
  obtain ⟨v, hv⟩ := Option.isSome_iff_exists.1 h
  exact ascii_of_hexValue? hv

theorem ascii_of_isDigit {code : Nat} (h : isDigit code = true) : 14 ≤ code ∧ code < 128 := by
  simp only [isDigit, Bool.and_eq_true, decide_eq_true_eq] at h
  omega

end CodePoint

namespace Lexer

open Cursor

variable {d : Dialect} {pos : Nat} {gs : List Glyph} {c c' : Cursor}

/-- A reader that goes on behind an ASCII character. -/
theorem reaches_of_ascii {g : Glyph} {x : Except Fault Cursor} (hc : Genuine ⟨pos, g :: gs⟩)
    (hg : 14 ≤ g.code ∧ g.code < 128) (h : Ensures x (Reaches ⟨pos + 1, gs⟩)) :
    Ensures x (Reaches ⟨pos, g :: gs⟩) :=
  h.mono fun _ h' => ((Passes.last_ascii hc.head hg.2 (isLineEnd_of_ascii hg.1 hg.2)).then h').reaches

/-! ### Numbers -/

theorem ascii_of_isDigitOf {base code : Nat} (h : isDigitOf base code = true) :
    14 ≤ code ∧ code < 128 := by
  rw [isDigitOf] at h
  split at h
  · rename_i v hv
    exact CodePoint.ascii_of_hexValue? hv
  · cases h

/-- A run of digits is passed up to its end. -/
theorem digitsEnd_reaches {base : Nat} {underscore : Bool} (hc : Genuine ⟨pos, gs⟩) :
    Ensures (digitsEnd base underscore pos gs) (Reaches ⟨pos, gs⟩) := by
  induction gs generalizing pos underscore with
  | nil =>
      rw [digitsEnd]
      split
      · exact .error
      · exact .ok (.refl _)
  | cons g gs ih =>
      rw [digitsEnd]
      split
      · rename_i hg
        split
        · exact .error
        · exact reaches_of_ascii hc (by omega) (ih hc.tail)
      split
      · rename_i hg
        exact reaches_of_ascii hc (ascii_of_isDigitOf hg) (ih hc.tail)
      split
      · exact .error
      · exact .ok (.refl _)

theorem skipDigits_reaches {base : Nat} (hc : c.Genuine) : Ensures (skipDigits base c) c.Reaches :=
  digitsEnd_reaches hc

theorem isLineEnd_of_baseOf? {code base : Nat} (h : baseOf? code = some base) :
    isLineEnd code = false := by
  simp only [baseOf?, Bool.or_eq_true, decide_eq_true_eq] at h
  split_ifs at h <;> exact isLineEnd_of_ascii (by omega) (by omega)

/-- A number in another base is passed, with the letter for the base. -/
theorem scanBased_reaches {base : Nat} (hc : c.Genuine) (hpeek : c.peek.bind baseOf? = some base) :
    Ensures (scanBased base c) fun r => c.Reaches r.2 := by
  obtain ⟨code, hcode, hbase⟩ := Option.bind_eq_some_iff.1 hpeek
  have hstep := step_passes_of_peek hcode (isLineEnd_of_baseOf? hbase)
  unfold scanBased
  extract_lets c₁ rest
  have hrest : Ensures (rest ()) fun r => c.Reaches r.2 := by
    refine (skipDigits_reaches (hstep.genuine hc)).bind fun c₂ h₂ => ?_
    split
    · rename_i hn
      exact .ok ((hstep.then h₂).trans (step_passes_of_peek hn rfl)).reaches
    · exact .ok (hstep.then h₂).reaches
  split
  · exact hrest
  · exact .throw_bind

/-- A fraction is passed, with its point. -/
theorem scanFraction_reaches (hc : c.Genuine) (hpeek : c.peek = some 46) :
    Ensures (scanFraction c) c.Reaches := by
  have hstep := step_passes_of_peek hpeek rfl
  unfold scanFraction
  extract_lets c₁ rest
  have hrest : Ensures (rest ()) c.Reaches :=
    (skipDigits_reaches (hstep.genuine hc)).mono fun _ h => (hstep.then h).reaches
  split
  · exact .throw_bind
  · exact hrest

/-- An exponent is passed, with its letter and its sign. -/
theorem scanExponent_reaches (hc : c.Genuine) (hpeek : c.sees (fun d => d = 101 || d = 69) = true) :
    Ensures (scanExponent c) c.Reaches := by
  have hletter : c.Passes c.step := step_passes_of_sees hpeek fun code hcode => by
    simp only [Bool.or_eq_true, decide_eq_true_eq] at hcode
    exact isLineEnd_of_ascii (by omega) (by omega)
  unfold scanExponent
  extract_lets c₁ c₂ rest
  have hstep : c.Passes c₂ := by
    simp only [c₂]
    split
    · rename_i hsign
      refine hletter.trans (step_passes_of_sees hsign fun code hcode => ?_)
      simp only [Bool.or_eq_true, decide_eq_true_eq] at hcode
      exact isLineEnd_of_ascii (by omega) (by omega)
    · exact hletter
  have hrest : Ensures (rest ()) c.Reaches :=
    (skipDigits_reaches (hstep.genuine hc)).mono fun _ h => (hstep.then h).reaches
  split
  · exact hrest
  · exact .throw_bind

/-- A decimal number is passed up to its end. -/
theorem scanDecimal_reaches {start first : Nat} (hc : c.Genuine) :
    Ensures (scanDecimal start first c) fun r => c.Reaches r.2 := by
  unfold scanDecimal
  extract_lets legacy
  refine (skipDigits_reaches hc).bind fun c₁ h₁ => ?_
  extract_lets hasPoint afterPoint
  -- what follows the digits before the point, the fraction and the exponent, from its end
  have hpoint : ∀ c₂, c.Reaches c₂ → Ensures (afterPoint c₂) fun r => c.Reaches r.2 := by
    intro c₂ h₂
    dsimp -zeta only [afterPoint]
    extract_lets hasExponent afterExponent
    have hexponent : ∀ c₃, c.Reaches c₃ → Ensures (afterExponent c₃) fun r => c.Reaches r.2 := by
      intro c₃ h₃
      simp only [afterExponent]
      split
      · rename_i hn
        simp only [Bool.and_eq_true, decide_eq_true_eq] at hn
        split
        · exact .throw_bind
        · exact .ok (h₃.then (step_passes_of_peek hn.1.1.1 rfl)).reaches
      · exact .ok h₃
    split
    · rename_i he
      refine (scanExponent_reaches (h₂.genuine hc) (Bool.and_eq_true_iff.1 he).1).bind
        fun c₃ h₃ => hexponent c₃ (h₂.trans h₃)
    · exact .pure_bind (hexponent c₂ h₂)
  split
  · rename_i hp
    simp only [hasPoint, Bool.and_eq_true, decide_eq_true_eq] at hp
    exact (scanFraction_reaches (h₁.genuine hc) hp.1.2).bind fun c₂ h₂ => hpoint c₂ (h₁.trans h₂)
  · exact .pure_bind (hpoint c₁ h₁)

/-- A number of any form is passed up to its end. -/
theorem scanNumber_reaches {start first : Nat} (hc : c.Genuine) :
    Ensures (scanNumber start first c) fun r => c.Reaches r.2 := by
  unfold scanNumber
  extract_lets rest
  have hrest : ∀ r, c.Reaches r.2 → Ensures (rest r) fun r => c.Reaches r.2 := by
    rintro ⟨kind, c₁⟩ h₁
    dsimp -zeta only [rest]
    split
    · exact .throw_bind
    · exact .ok h₁
  split
  · rename_i base hbase
    split at hbase
    · exact (scanBased_reaches hc hbase).bind hrest
    · cases hbase
  · exact (scanDecimal_reaches hc).bind hrest

/-! ### Names -/

/-- A name with escapes is passed up to its end. -/
theorem escapedNameEnd_reaches {state : NameState} (hc : Genuine ⟨pos, gs⟩) :
    Ensures (escapedNameEnd state pos gs) (Reaches ⟨pos, gs⟩) := by
  fun_induction escapedNameEnd state pos gs with
  | case1 | case5 => exact .ok (.refl _)
  | case2 | case7 | case10 | case12 | case15 => exact .error
  | case3 pos g gs hg ih | case6 pos g gs hg ih | case8 pos g gs hg ih | case13 pos g gs hg ih =>
      exact reaches_of_ascii hc (by omega) (ih hc.tail)
  | case4 pos g gs _ hg ih =>
      exact (ih hc.tail).mono fun _ h =>
        ((Passes.last (CodePoint.ne_of_isIdentifierPart hg).1).then h).reaches
  | case9 pos g gs _ hg ih | case14 pos g gs _ hg ih | case11 missing pos g gs hg ih =>
      exact reaches_of_ascii hc (CodePoint.ascii_of_isHex hg) (ih hc.tail)

/-- What a name with escapes spells is an identifier, without the sign of a private name. -/
theorem scanEscapedName_reaches {start sign : Nat} {whole : List Glyph} (hc : c.Genuine) :
    Ensures (scanEscapedName d start sign whole c) fun r =>
      c.Reaches r.2 ∧ isIdentifier (r.1.drop sign) = true := by
  unfold scanEscapedName
  refine (escapedNameEnd_reaches hc).bind fun c₁ h₁ => ?_
  refine .bind_ok fun units _ => ?_
  extract_lets name rest
  split
  · rename_i hname
    exact .ok ⟨h₁, hname⟩
  · exact .throw_bind

/-- A backslash is passed when a name with escapes is read from it. -/
theorem scanEscapedName_passes {start sign : Nat} {whole : List Glyph} (hc : c.Genuine)
    (hpeek : c.peek = some 92) :
    Ensures (scanEscapedName d start sign whole c) fun r => c.Passes r.2 := by
  obtain ⟨g, gs, hrest, hg⟩ := peek_eq_some hpeek
  obtain ⟨pos, rest⟩ := c
  subst hrest
  unfold scanEscapedName
  rw [escapedNameEnd, if_pos hg]
  refine (escapedNameEnd_reaches hc.tail).bind fun c₁ h₁ => ?_
  refine .bind_ok fun units _ => ?_
  extract_lets name rest
  split
  · exact .ok ((Passes.last_ascii hc.head (by omega) (by rw [hg]; rfl)).then h₁)
  · exact .throw_bind

/-- All characters of a name may continue an identifier. -/
theorem isIdentifierPart_of_mem {g : Glyph}
    (h : g ∈ gs.takeWhile fun g => CodePoint.isIdentifierPart g.code) :
    CodePoint.isIdentifierPart g.code = true :=
  List.mem_takeWhile_imp (p := fun g : Glyph => CodePoint.isIdentifierPart g.code) h

/-- The characters of an identifier are read as themselves when they stand alone. -/
theorem glyphs_takeWhile_isIdentifierPart (h : ∀ g ∈ gs, g.Genuine) :
    Utf8.glyphs (Utf8.bytesOf (gs.takeWhile fun g => CodePoint.isIdentifierPart g.code)) =
      gs.takeWhile fun g => CodePoint.isIdentifierPart g.code := by
  refine Utf8.glyphs_bytesOf fun g hg => ⟨h g (List.takeWhile_subset _ hg), ?_⟩
  have hpart := CodePoint.ne_of_isIdentifierPart (isIdentifierPart_of_mem hg)
  simp [Utf8.isInvalid, hpart.2]

/-- A name is passed, and what it spells is an identifier. -/
theorem scanName_passes (hc : c.Genuine)
    (h : c.sees (fun code => CodePoint.isIdentifierStart code || code = 92) = true) :
    Ensures (scanName d c) fun r => c.Passes r.2.2 ∧ isIdentifier r.2.1 = true := by
  have hpart : ∀ code, CodePoint.isIdentifierPart code = true → isLineEnd code = false :=
    fun _ hcode => (CodePoint.ne_of_isIdentifierPart hcode).1
  have hskip := skip_reaches hpart c
  obtain ⟨code, hpeek, hcode⟩ := sees_eq_true h
  obtain ⟨g, gs, hrest, rfl⟩ := peek_eq_some hpeek
  unfold scanName
  extract_lets stop name
  split
  · rename_i hstop
    refine Ensures.bind (P := fun r => c.Passes r.2 ∧ isIdentifier r.1 = true) ?_
      fun r hr => .ok hr
    intro r hr
    refine ⟨hskip.then (scanEscapedName_passes (hskip.genuine hc) hstop r hr), ?_⟩
    have hname := (scanEscapedName_reaches (hskip.genuine hc) r hr).2
    rwa [List.drop_zero] at hname
  · rename_i hstop
    -- the name does not begin with a backslash, so its first character is passed
    have hfirst : CodePoint.isIdentifierStart g.code = true := by
      simp only [Bool.or_eq_true, decide_eq_true_eq] at hcode
      refine hcode.resolve_right fun hg => hstop ?_
      have hno : CodePoint.isIdentifierPart 92 = false := by decide
      simp [stop, skip_eq, hrest, hg, hno, peek]
    have hpartg := CodePoint.isIdentifierPart_of_isIdentifierStart hfirst
    refine .ok ⟨skip_passes hpart ?_, ?_⟩
    · simp [sees, peek, hrest, hpartg]
    · have hwhole := glyphs_takeWhile_isIdentifierPart hc
      have hname : Glyph.takeBytes (stop.pos - c.pos) c.rest =
          c.rest.takeWhile fun g => CodePoint.isIdentifierPart g.code := by
        have htake := @Glyph.takeBytes_append (c.rest.takeWhile fun g => CodePoint.isIdentifierPart g.code)
          (c.rest.dropWhile fun g => CodePoint.isIdentifierPart g.code)
          fun g hg => hc g (List.takeWhile_subset _ hg)
        rw [List.takeWhile_append_dropWhile] at htake
        simp only [stop, skip_eq, Nat.add_sub_cancel_left, htake]
      dsimp only [name]
      rw [hname, isIdentifier, hwhole, hrest, List.takeWhile_cons, if_pos hpartg]
      simp only [hfirst, Bool.true_and, List.all_eq_true]
      exact fun k hk => isIdentifierPart_of_mem hk

/-- A private name is passed, with its sign. -/
theorem scanPrivateName_passes (hc : c.Genuine) (h : c.peek = some 35) :
    Ensures (scanPrivateName d c) fun r => c.Passes r.2.2 ∧ r.1 = .privateName := by
  have hpart : ∀ code, CodePoint.isIdentifierPart code = true → isLineEnd code = false :=
    fun _ hcode => (CodePoint.ne_of_isIdentifierPart hcode).1
  have hstep := step_passes_of_peek h rfl
  have hskip := hstep.then (skip_reaches hpart c.step)
  unfold scanPrivateName
  extract_lets first stop rest
  have hrest : Ensures (rest ()) fun r => c.Passes r.2.2 ∧ r.1 = .privateName := by
    dsimp -zeta only [rest]
    split
    · exact (scanEscapedName_reaches (hskip.genuine hc)).bind fun r hr =>
        .ok ⟨hskip.then hr.1, rfl⟩
    · exact .ok ⟨hskip, rfl⟩
  split
  · exact hrest
  · exact .throw_bind

/-! ### Strings, templates and regular expressions -/

/-- A string is passed up to its closing quote. -/
theorem quotedEnd_passes {quote : Nat} (hquote : 14 ≤ quote ∧ quote < 128) (hc : Genuine ⟨pos, gs⟩) :
    Ensures (quotedEnd d quote pos gs) fun r => Passes ⟨pos, gs⟩ r.2 := by
  fun_induction quotedEnd d quote pos gs with
  | case1 | case2 | case8 | case13 => exact .error
  | case3 pos g hg h hh k ks hk ih =>
      simp only [Bool.and_eq_true, decide_eq_true_eq] at hh
      have hc' : Genuine ⟨pos, h :: k :: ks⟩ := hc.tail
      have hc'' : Genuine ⟨pos, k :: ks⟩ := hc'.tail
      exact (ih hc''.tail).mono fun _ hp => .cons_ascii hc.head (by omega)
        (.cons_ascii hc'.head (by omega) (.cons_ascii hc''.head (by omega) hp))
  | case4 pos g hg h hh k ks _ ih =>
      simp only [Bool.and_eq_true, decide_eq_true_eq] at hh
      have hc' : Genuine ⟨pos, h :: k :: ks⟩ := hc.tail
      exact (ih hc'.tail).mono fun _ hp =>
        .cons_ascii hc.head (by omega) (.cons_ascii hc'.head (by omega) hp)
  | case5 pos g hg h hh ih =>
      simp only [Bool.and_eq_true, decide_eq_true_eq] at hh
      have hc' : Genuine ⟨pos, [h]⟩ := hc.tail
      exact (ih hc'.tail).mono fun _ hp =>
        .cons_ascii hc.head (by omega) (.cons_ascii hc'.head (by omega) hp)
  | case6 pos g hg h hs _ ih =>
      have hc' : Genuine ⟨pos, h :: hs⟩ := hc.tail
      exact (ih hc'.tail).mono fun _ hp => .cons_ascii hc.head (by omega) (.cons hp)
  | case7 pos g gs _ hg _ ih =>
      simp only [Bool.or_eq_true, decide_eq_true_eq] at hg
      exact (ih hc.tail).mono fun _ hp => .cons_ascii hc.head (by omega) hp
  | case9 pos g _ _ hg k ks hk =>
      simp only [Bool.and_eq_true, decide_eq_true_eq] at hg
      have hc' : Genuine ⟨pos, k :: ks⟩ := hc.tail
      exact .ok (.cons_ascii hc.head (by omega)
        (.last_ascii hc'.head (by omega) (by rw [hk]; rfl)))
  | case10 pos g _ _ hg k ks _ ih | case11 pos g _ _ hg ih =>
      simp only [Bool.and_eq_true, decide_eq_true_eq] at hg
      exact (ih hc.tail).mono fun _ hp => .cons_ascii hc.head (by omega) hp
  | case12 pos g gs _ _ _ hg =>
      exact .ok (.last_ascii hc.head (by omega) (isLineEnd_of_ascii (by omega) (by omega)))
  | case14 pos g gs _ _ _ _ _ ih => exact (ih hc.tail).mono fun _ hp => .cons hp

/-- A string or template is read up to its closing, and what stands before the closing is decoded. -/
theorem scanQuoted_ok {quote start : Nat} {resumed : Bool} : Ensures (scanQuoted d quote resumed start c) fun r =>
    ∃ closing, quotedEnd d quote c.pos c.rest = .ok (closing, r.2.2) ∧
      decodeUnits d c.pos (Glyph.takeBytes (r.2.2.pos - closing.width - c.pos) c.rest) = .ok r.2.1 ∧
      (d = .json → quote = 34) ∧ r.1 = quotedKind quote resumed closing := by
  unfold scanQuoted
  refine .bind_ok fun (closing, stop) closed => .bind_ok fun units decoded => .forbid fun hquote => .ok ?_
  refine ⟨closing, closed, decoded, fun hd => ?_, rfl⟩
  simpa [hd] using hquote

/-- A string or template is passed, and its kind tells how it began and how it closed. -/
theorem scanQuoted_passes {quote start : Nat} {resumed : Bool} (hquote : 14 ≤ quote ∧ quote < 128)
    (hc : c.Genuine) : Ensures (scanQuoted d quote resumed start c) fun r =>
      c.Passes r.2.2 ∧ ∃ closing, r.1 = quotedKind quote resumed closing := by
  intro r hr
  obtain ⟨closing, closed, -, -, hkind⟩ := scanQuoted_ok r hr
  exact ⟨quotedEnd_passes hquote hc _ closed, closing, hkind⟩

/-- The pattern of a regular expression is passed up to its closing slash. -/
theorem patternEnd_passes {inClass : Bool} (hc : Genuine ⟨pos, gs⟩) :
    Ensures (patternEnd inClass pos gs) (Passes ⟨pos, gs⟩) := by
  fun_induction patternEnd inClass pos gs with
  | case1 | case2 | case3 | case5 => exact .error
  | case4 inClass pos g hg h hs _ ih =>
      have hc' : Genuine ⟨pos, h :: hs⟩ := hc.tail
      exact (ih hc'.tail).mono fun _ hp => .cons_ascii hc.head (by omega) (.cons hp)
  | case6 inClass pos g gs _ _ hg =>
      simp only [Bool.and_eq_true, decide_eq_true_eq] at hg
      exact .ok (.last_ascii hc.head (by omega) (by rw [hg.1]; rfl))
  | case7 inClass pos g gs _ _ _ hg ih =>
      simp only [Bool.and_eq_true, decide_eq_true_eq] at hg
      exact (ih hc.tail).mono fun _ hp => .cons_ascii hc.head (by omega) hp
  | case8 inClass pos g gs _ _ _ _ hg ih =>
      exact (ih hc.tail).mono fun _ hp => .cons_ascii hc.head (by omega) hp
  | case9 inClass pos g gs _ _ _ _ _ ih => exact (ih hc.tail).mono fun _ hp => .cons hp

theorem isLineEnd_of_isFlag {code : Nat} (h : isFlag code = true) : isLineEnd code = false := by
  simp only [isFlag, List.contains_eq_mem, List.mem_cons, List.not_mem_nil, or_false,
    decide_eq_true_eq] at h
  exact isLineEnd_of_ascii (by omega) (by omega)

/-- A regular expression is passed, with its flags. -/
theorem scanRegExp_passes (hc : c.Genuine) : Ensures (scanRegExp c) c.Passes := by
  unfold scanRegExp
  refine (patternEnd_passes hc).bind fun c₁ h₁ => ?_
  extract_lets stop rest
  split
  · exact .throw_bind
  · exact .ok (h₁.then (skip_reaches (fun _ => isLineEnd_of_isFlag) c₁))

end Lexer

end ModuleSystem
