import ModuleSystem.Text.Quoted
import ModuleSystem.Proofs.Text.Lines

/-!
# Quoted text — one line for every text

A name or specifier that was written with escapes can hold line terminators and surrogates without
partner.  Its literal holds neither: `Quoted.literal_toText_inline` for the text of any code units,
`Quoted.literal_inline` for any valid text.
-/

namespace ModuleSystem

namespace Utf8

/-! ### Writing and reading a code point -/

theorem toNat_toUInt8 {n : Nat} (h : n < 256) : n.toUInt8.toNat = n := by
  simpa using h

/-- The second byte of a code point that is no surrogate keeps its bounds. -/
theorem mem_secondBounds {b₀ b₁ : UInt8} (h : 0x80 ≤ b₁.toNat ∧ b₁.toNat ≤ 0xBF)
    (hlow : b₀.toNat = 0xE0 → 0xA0 ≤ b₁.toNat) (hsurrogate : b₀.toNat = 0xED → b₁.toNat ≤ 0x9F)
    (hlow' : b₀.toNat = 0xF0 → 0x90 ≤ b₁.toNat) (hhigh : b₀.toNat = 0xF4 → b₁.toNat ≤ 0x8F) :
    (secondBounds b₀).1 ≤ b₁ ∧ b₁ ≤ (secondBounds b₀).2 := by
  simp only [secondBounds, ← UInt8.toNat_inj, UInt8.toNat_ofNat]
  split_ifs <;> simp_all [UInt8.le_iff_toNat_le]

theorem isSurrogate_eq_false {c : Nat} : isSurrogate c = false ↔ c < 0xD800 ∨ 0xDFFF < c := by
  simp only [isSurrogate, Bool.and_eq_false_iff, decide_eq_false_iff_not, Nat.not_le]

/-- The bytes of a code point spell the code point. -/
theorem sequence_encodeRaw {c : Nat} (h : c ≤ 0x10FFFF) (hs : isSurrogate c = false) : Sequence (encodeRaw c) c := by
  rw [isSurrogate_eq_false] at hs
  have hlast : (0x80 + c % 64).toUInt8.toNat = 0x80 + c % 64 := toNat_toUInt8 (by omega)
  have hlast₂ : (0x80 + c / 64 % 64).toUInt8.toNat = 0x80 + c / 64 % 64 := toNat_toUInt8 (by omega)
  have hlast₃ : (0x80 + c / 4096 % 64).toUInt8.toNat = 0x80 + c / 4096 % 64 :=
    toNat_toUInt8 (by omega)
  unfold encodeRaw
  split_ifs with h₁ h₂ h₃
  · have hc : c.toUInt8.toNat = c := toNat_toUInt8 (by omega)
    have hseq := Sequence.one (b := c.toUInt8) (by omega)
    rwa [hc] at hseq
  · have hc : (0xC0 + c / 64).toUInt8.toNat = 0xC0 + c / 64 := toNat_toUInt8 (by omega)
    have hseq := @Sequence.two (0xC0 + c / 64).toUInt8 (0x80 + c % 64).toUInt8 (by omega)
      (isContinuation_iff.2 (by omega))
    convert hseq using 1
    omega
  · have hc : (0xE0 + c / 4096).toUInt8.toNat = 0xE0 + c / 4096 := toNat_toUInt8 (by omega)
    have hseq := @Sequence.three (0xE0 + c / 4096).toUInt8 (0x80 + c / 64 % 64).toUInt8 (0x80 + c % 64).toUInt8
      (by omega) (mem_secondBounds (by omega) (by omega) (by omega) (by omega) (by omega))
      (isContinuation_iff.2 (by omega))
    convert hseq using 1
    omega
  · have hc : (0xF0 + c / 262144).toUInt8.toNat = 0xF0 + c / 262144 := toNat_toUInt8 (by omega)
    have hseq := @Sequence.four (0xF0 + c / 262144).toUInt8 (0x80 + c / 4096 % 64).toUInt8
      (0x80 + c / 64 % 64).toUInt8 (0x80 + c % 64).toUInt8 (by omega)
      (mem_secondBounds (by omega) (by omega) (by omega) (by omega) (by omega))
      (isContinuation_iff.2 (by omega)) (isContinuation_iff.2 (by omega))
    convert hseq using 1
    omega

/-- The bytes of a code point are read as the code point. -/
theorem decode_encodeRaw {c : Nat} (h : c ≤ 0x10FFFF) (hs : isSurrogate c = false) (t : Text) :
    decode (encodeRaw c ++ t) = (c, (encodeRaw c).length) :=
  (sequence_encodeRaw h hs).decode t

theorem toUInt8_eq {b : UInt8} {n : Nat} (h : n = b.toNat) : n.toUInt8 = b := by
  subst h
  simp

/-- A code point that is spelled is no surrogate, and there is one way to spell it. -/
theorem Sequence.encodeRaw {s : Text} {c : Nat} (h : Sequence s c) :
    c ≤ 0x10FFFF ∧ isSurrogate c = false ∧ encodeRaw c = s := by
  cases h with
  | @one b h =>
      refine ⟨by omega, isSurrogate_eq_false.2 (by omega), ?_⟩
      rw [Utf8.encodeRaw, if_pos h, toUInt8_eq rfl]
  | @two b₀ b₁ h₀ h₁ =>
      rw [isContinuation_iff] at h₁
      refine ⟨by omega, isSurrogate_eq_false.2 (by omega), ?_⟩
      rw [Utf8.encodeRaw, if_neg (by omega), if_pos (by omega), @toUInt8_eq b₀ _ (by omega),
        @toUInt8_eq b₁ _ (by omega)]
  | @three b₀ b₁ b₂ h₀ h₁ h₂ =>
      rw [isContinuation_iff] at h₂
      obtain ⟨h₁, hlow, hsurrogate, -, -⟩ := toNat_of_secondBounds h₁.1 h₁.2
      refine ⟨by omega, isSurrogate_eq_false.2 (by omega), ?_⟩
      rw [Utf8.encodeRaw, if_neg (by omega), if_neg (by omega), if_pos (by omega), @toUInt8_eq b₀ _ (by omega),
        @toUInt8_eq b₁ _ (by omega), @toUInt8_eq b₂ _ (by omega)]
  | @four b₀ b₁ b₂ b₃ h₀ h₁ h₂ h₃ =>
      rw [isContinuation_iff] at h₂ h₃
      obtain ⟨h₁, -, -, hlow, hhigh⟩ := toNat_of_secondBounds h₁.1 h₁.2
      refine ⟨by omega, isSurrogate_eq_false.2 (by omega), ?_⟩
      rw [Utf8.encodeRaw, if_neg (by omega), if_neg (by omega), if_neg (by omega), @toUInt8_eq b₀ _ (by omega),
        @toUInt8_eq b₁ _ (by omega), @toUInt8_eq b₂ _ (by omega), @toUInt8_eq b₃ _ (by omega)]

/-- A valid character is written with the bytes of its code point. -/
theorem bytes_of_valid {g : Glyph} (h : glyphs g.bytes = [g]) (hvalid : isInvalid g = false) :
    g.code ≤ 0x10FFFF ∧ isSurrogate g.code = false ∧ g.bytes = encodeRaw g.code := by
  obtain ⟨b, t, hb, hg, -⟩ := glyphs_eq_cons h
  rw [hb] at hg
  obtain hdec | ⟨s, c, u, hs, e⟩ := decode_cases b t
  · rw [hg, hdec] at hvalid
    cases hvalid
  · rw [e, hs.decode, List.take_left] at hg
    obtain ⟨hle, hsurrogate, hbytes⟩ := hs.encodeRaw
    rw [hg]
    exact ⟨hle, hsurrogate, hbytes.symm⟩

/-- A code point that is no surrogate is one valid character. -/
theorem glyphs_encodeRaw {c : Nat} (h : c ≤ 0x10FFFF) (hs : isSurrogate c = false) :
    glyphs (encodeRaw c) = [⟨c, encodeRaw c⟩] ∧ isInvalid ⟨c, encodeRaw c⟩ = false := by
  have hdec := decode_encodeRaw h hs []
  rw [List.append_nil] at hdec
  have hne : encodeRaw c ≠ [] := by
    unfold encodeRaw
    split_ifs <;> simp
  obtain ⟨b, t, hb⟩ := List.exists_cons_of_ne_nil hne
  refine ⟨?_, ?_⟩
  · rw [hb] at hdec ⊢
    rw [glyphs_cons, hdec, List.take_length, List.drop_length, glyphs_nil]
  · by_cases hc : c = replacement
    · subst hc
      decide
    · simp [isInvalid, hc]

end Utf8

namespace Utf16

/-! ### Texts of code units -/

theorem glyphsFrom_eq (k : Nat) (t : Text) : glyphsFrom k t = glyphs (t.drop k) := by
  induction t generalizing k with
  | nil => cases k <;> simp [glyphs, glyphsFrom]
  | cons b t ih =>
      cases k with
      | zero => rfl
      | succ k => rw [glyphsFrom, ih, List.drop_succ_cons]

theorem glyphs_cons {b : UInt8} {t : Text} (h : 0 < (decode (b :: t)).2) :
    glyphs (b :: t) =
      ⟨(decode (b :: t)).1, (b :: t).take (decode (b :: t)).2⟩ ::
        glyphs ((b :: t).drop (decode (b :: t)).2) := by
  rw [glyphs, glyphsFrom]
  dsimp only
  rw [glyphsFrom_eq]
  obtain ⟨n, hn⟩ : ∃ m, (decode (b :: t)).2 = m + 1 := ⟨(decode (b :: t)).2 - 1, by omega⟩
  rw [hn, List.drop_succ_cons, Nat.add_sub_cancel]

/-- What is no surrogate is read as it is in UTF-8. -/
theorem decode_eq {t : Text} (h : Utf8.decode t ≠ (Utf8.replacement, 1)) : decode t = Utf8.decode t := by
  unfold decode
  split
  · rename_i b₀ b₁ b₂ t
    split
    · rename_i hs
      simp only [Bool.and_eq_true, decide_eq_true_eq] at hs
      obtain ⟨⟨⟨rfl, hlow⟩, -⟩, -⟩ := hs
      refine absurd ?_ h
      have hhigh : ¬ b₁ ≤ 0x9F := by
        simp only [UInt8.le_iff_toNat_le, UInt8.toNat_ofNat] at hlow ⊢
        omega
      simp [Utf8.decode, Utf8.secondBounds, hhigh]
    · rfl
  · rfl

/-- The bytes of a code point, a surrogate included, are read as the code point. -/
theorem decode_encodeRaw {c : Nat} (h : c ≤ 0x10FFFF) (t : Text) :
    decode (Utf8.encodeRaw c ++ t) = (c, (Utf8.encodeRaw c).length) := by
  by_cases hs : Utf8.isSurrogate c = true
  · simp only [Utf8.isSurrogate, Bool.and_eq_true, decide_eq_true_eq] at hs
    have hfirst : 0xE0 + c / 4096 = 0xED := by omega
    have hlast : (0x80 + c % 64).toUInt8.toNat = 0x80 + c % 64 := Utf8.toNat_toUInt8 (by omega)
    have hlast₂ : (0x80 + c / 64 % 64).toUInt8.toNat = 0x80 + c / 64 % 64 :=
      Utf8.toNat_toUInt8 (by omega)
    rw [Utf8.encodeRaw, if_neg (by omega), if_neg (by omega), if_pos (by omega), hfirst,
      List.cons_append, List.cons_append, List.cons_append, decode, if_pos]
    · simp only [Utf8.payload, hlast, hlast₂]
      exact Prod.ext (by dsimp only; omega) rfl
    · simp only [Utf8.isContinuation, Bool.and_eq_true, decide_eq_true_eq, UInt8.le_iff_toNat_le,
        UInt8.toNat_ofNat, hlast, hlast₂]
      refine ⟨⟨⟨rfl, ?_⟩, ?_⟩, ?_, ?_⟩ <;> omega
  · have hdec := Utf8.decode_encodeRaw h (by simpa using hs) t
    refine (decode_eq fun hnot => ?_).trans hdec
    obtain rfl : c = Utf8.replacement := congrArg Prod.fst (hdec.symm.trans hnot)
    exact absurd (congrArg Prod.snd (hdec.symm.trans hnot)) (by decide)

/-- Every code point of a string lies within Unicode. -/
theorem codePoints_le {us : List UInt16} : ∀ c ∈ codePoints us, c ≤ 0x10FFFF := by
  fun_induction codePoints us with
  | case1 => simp
  | case2 u =>
      have := u.toNat_lt
      simp only [List.mem_singleton]
      omega
  | case3 u v us hpair ih =>
      simp only [isHigh, isLow, Bool.and_eq_true, decide_eq_true_eq, UInt16.le_iff_toNat_le,
        UInt16.toNat_ofNat] at hpair
      refine List.forall_mem_cons.2 ⟨?_, ih⟩
      unfold pair
      omega
  | case4 u v us hpair ih =>
      have := u.toNat_lt
      exact List.forall_mem_cons.2 ⟨by omega, ih⟩

/-- The characters of a text of code units are its code points. -/
theorem glyphs_encodeRaws {cs : List Nat} (h : ∀ c ∈ cs, c ≤ 0x10FFFF) :
    glyphs (cs.flatMap Utf8.encodeRaw) = cs.map fun c => ⟨c, Utf8.encodeRaw c⟩ := by
  induction cs with
  | nil => rfl
  | cons c cs ih =>
      have hdec := decode_encodeRaw (h c List.mem_cons_self) (cs.flatMap Utf8.encodeRaw)
      have hne : Utf8.encodeRaw c ≠ [] := by
        unfold Utf8.encodeRaw
        split_ifs <;> simp
      obtain ⟨b, t, hb⟩ := List.exists_cons_of_ne_nil hne
      rw [hb, List.cons_append] at hdec
      rw [List.flatMap_cons, hb, List.cons_append, glyphs_cons (by rw [hdec]; simp), hdec,
        ← List.cons_append, List.take_left, List.drop_left, ih fun c hc => h c (List.mem_cons_of_mem _ hc),
        List.map_cons, hb]

/-- A valid text is read as it is in UTF-8. -/
theorem glyphs_eq {t : Text} (h : Utf8.isValid t) : glyphs t = Utf8.glyphs t := by
  generalize hgs : Utf8.glyphs t = gs
  rw [Utf8.isValid_iff] at h
  induction gs generalizing t with
  | nil =>
      have : t = [] := by rw [← Utf8.bytesOf_glyphs t, hgs, Utf8.bytesOf_nil]
      rw [this]
      rfl
  | cons g gs ih =>
      obtain ⟨b, u, rfl, hg, rfl⟩ := Utf8.glyphs_eq_cons hgs
      have hvalid := h g (hgs ▸ List.mem_cons_self)
      have hdec : decode (b :: u) = Utf8.decode (b :: u) := by
        refine decode_eq fun hdec => ?_
        rw [hg, hdec] at hvalid
        simp [Utf8.isInvalid, Glyph.width] at hvalid
      rw [glyphs_cons (by rw [hdec]; exact Utf8.decode_width_pos b u), hdec, ← hg,
        ih (fun g hg => h g (hgs ▸ List.mem_cons_of_mem _ hg)) rfl]

end Utf16

namespace Quoted

/-! ### Literals -/

/-- ASCII characters that end no line. -/
theorem inline_of_ascii {t : Text} (h : ∀ b ∈ t, 14 ≤ b.toNat ∧ b.toNat < 128) : t.Inline := by
  induction t with
  | nil => exact .nil
  | cons b t ih =>
      obtain ⟨hb, ht⟩ := List.forall_mem_cons.1 h
      refine Text.Inline.append (t := [b]) (Text.inline_of_glyphs fun g hg => ?_) (ih ht)
      rw [Utf8.glyphs_cons, Utf8.decode_one hb.2] at hg
      obtain rfl := List.mem_singleton.1 hg
      have hne : b.toNat ≠ Utf8.replacement := by
        unfold Utf8.replacement
        omega
      exact ⟨by simp [Utf8.isInvalid, hne], isLineEnd_of_ascii hb.1 hb.2⟩

theorem upperDigits_inline (width n : Nat) : Text.Inline (Hex.digits Hex.upperDigit width n) := by
  induction width generalizing n with
  | zero => exact .nil
  | succ width ih =>
      refine (ih _).append (inline_of_ascii fun b hb => ?_)
      obtain rfl := List.mem_singleton.1 hb
      have hdigit : ∀ k < 16, 14 ≤ (Hex.upperDigit k).toNat ∧ (Hex.upperDigit k).toNat < 128 := by
        decide
      exact hdigit _ (Nat.mod_lt _ (by decide))

/-- A character that is written plainly ends no line. -/
theorem isLineEnd_of_isPlain {c : Nat} (h : isPlain c = true) : isLineEnd c = false := by
  unfold isPlain at h
  simp only [isLineEnd, Bool.or_eq_false_iff, decide_eq_false_iff_not]
  split at h <;> simp_all <;> omega

/-- A character that is written as it is must be valid; any other one is written in ASCII. -/
theorem literalGlyph_inline {g : Glyph}
    (h : isPlain g.code = true → Utf8.glyphs g.bytes = [g] ∧ Utf8.isInvalid g = false) :
    Text.Inline (literalGlyph g) := by
  unfold literalGlyph
  split
  · rename_i hplain
    obtain ⟨hglyphs, hvalid⟩ := h hplain
    refine Text.inline_of_glyphs fun g' hg' => ?_
    rw [hglyphs] at hg'
    obtain rfl := List.mem_singleton.1 hg'
    exact ⟨hvalid, isLineEnd_of_isPlain hplain⟩
  · split
    · rename_i letter hletter
      have hmem : ∀ p ∈ [((8 : Nat), (98 : UInt8)), (12, 102), (10, 110), (13, 114), (9, 116), (92, 92),
          (34, 34)], 14 ≤ p.2.toNat ∧ p.2.toNat < 128 := by
        decide
      obtain ⟨l₁, l₂, hl, -⟩ := List.lookup_eq_some_iff.1 hletter
      have hescape := hmem (g.code, letter) (by rw [hl]; simp)
      exact inline_of_ascii (List.forall_mem_cons.2 ⟨by decide, List.forall_mem_singleton.2 hescape⟩)
    · exact Text.Inline.append (by decide +kernel) (upperDigits_inline 4 g.code)

theorem literal_inline_of_glyphs {t : Text} (h : ∀ g ∈ Utf16.glyphs t, isPlain g.code = true →
    Utf8.glyphs g.bytes = [g] ∧ Utf8.isInvalid g = false) : Text.Inline (literal t) := by
  have hquote : Text.Inline [34] := inline_of_ascii (by decide)
  exact (hquote.append (.flatMap fun g hg => literalGlyph_inline (h g hg))).append hquote

/-- The literal of a valid text is on one line. -/
theorem literal_inline {t : Text} (h : Utf8.isValid t) : Text.Inline (literal t) := by
  refine literal_inline_of_glyphs fun g hg _ => ?_
  rw [Utf16.glyphs_eq h] at hg
  exact ⟨Utf8.glyphs_bytes_of_mem hg, Utf8.isValid_iff.1 h g hg⟩

/-- The literal of any code units is on one line. -/
theorem literal_toText_inline (us : List UInt16) : Text.Inline (literal (Utf16.toText us)) := by
  refine literal_inline_of_glyphs fun g hg hplain => ?_
  rw [Utf16.toText, Utf16.glyphs_encodeRaws Utf16.codePoints_le] at hg
  obtain ⟨c, hc, rfl⟩ := List.mem_map.1 hg
  refine Utf8.glyphs_encodeRaw (Utf16.codePoints_le c hc) ?_
  simp only [isPlain, Utf8.isSurrogate] at hplain ⊢
  split at hplain <;> simp_all <;> omega

end Quoted

end ModuleSystem
