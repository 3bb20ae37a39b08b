import Mathlib.Tactic.Common
import ModuleSystem.Text.Utf8

/-!
# Glyphs — reading a text as characters

A text is read from left to right.  It begins with the bytes of a character (`Sequence`), which are read
as that character whatever follows, or with a byte that begins none (`decode_cases`).  So the bytes of the
glyphs of a text make up the text (`bytesOf_glyphs`), and a text that is cut between two of its glyphs is
read as before on both sides of the cut (`glyphs_of_append`).  The other way round, two texts that are put
together are read as before when the first one is valid (`glyphs_append`): only a byte that starts no
sequence could be completed by what comes after it.

The first byte of a character is told apart from the others: all but the first are continuation bytes.  So a
byte that is none begins a character wherever it stands (`exists_glyphs_of_first`), and a text can be cut there:
`Text.Boundary` is an offset that is not inside a character.
-/

namespace ModuleSystem

namespace Utf8

variable {t u : Text} {g : Glyph} {gs hs : List Glyph} {b : UInt8}

/-! ### The first character -/

/-- What the bounds of a second byte leave out. -/
theorem toNat_of_secondBounds {b₀ b₁ : UInt8} (low : (secondBounds b₀).1 ≤ b₁) (high : b₁ ≤ (secondBounds b₀).2) :
    (0x80 ≤ b₁.toNat ∧ b₁.toNat ≤ 0xBF) ∧ (b₀.toNat = 0xE0 → 0xA0 ≤ b₁.toNat) ∧
      (b₀.toNat = 0xED → b₁.toNat ≤ 0x9F) ∧ (b₀.toNat = 0xF0 → 0x90 ≤ b₁.toNat) ∧
      (b₀.toNat = 0xF4 → b₁.toNat ≤ 0x8F) := by
  simp only [secondBounds, ← UInt8.toNat_inj, UInt8.toNat_ofNat] at low high
  simp only [UInt8.le_iff_toNat_le] at low high
  split_ifs at low high <;> simp_all <;> omega

theorem isContinuation_iff {b : UInt8} : isContinuation b = true ↔ 0x80 ≤ b.toNat ∧ b.toNat ≤ 0xBF := by
  simp [isContinuation, UInt8.le_iff_toNat_le]

/-- The bytes of a character, and the code point that they spell. -/
inductive Sequence : Text → Nat → Prop where
  | one {b : UInt8} (h : b.toNat < 0x80) : Sequence [b] b.toNat
  | two {b₀ b₁ : UInt8} (h₀ : 0xC2 ≤ b₀.toNat ∧ b₀.toNat < 0xE0) (h₁ : isContinuation b₁ = true) :
      Sequence [b₀, b₁] (b₀.toNat % 32 * 64 + b₁.toNat % 64)
  | three {b₀ b₁ b₂ : UInt8} (h₀ : 0xE0 ≤ b₀.toNat ∧ b₀.toNat < 0xF0)
      (h₁ : (secondBounds b₀).1 ≤ b₁ ∧ b₁ ≤ (secondBounds b₀).2) (h₂ : isContinuation b₂ = true) :
      Sequence [b₀, b₁, b₂] (b₀.toNat % 16 * 4096 + b₁.toNat % 64 * 64 + b₂.toNat % 64)
  | four {b₀ b₁ b₂ b₃ : UInt8} (h₀ : 0xF0 ≤ b₀.toNat ∧ b₀.toNat < 0xF5)
      (h₁ : (secondBounds b₀).1 ≤ b₁ ∧ b₁ ≤ (secondBounds b₀).2) (h₂ : isContinuation b₂ = true)
      (h₃ : isContinuation b₃ = true) :
      Sequence [b₀, b₁, b₂, b₃]
        (b₀.toNat % 8 * 262144 + b₁.toNat % 64 * 4096 + b₂.toNat % 64 * 64 + b₃.toNat % 64)

/-- A character is read whatever follows. -/
theorem Sequence.decode {s : Text} {c : Nat} (h : Sequence s c) (t : Text) : decode (s ++ t) = (c, s.length) := by
  cases h with
  | one h => simp [Utf8.decode, UInt8.lt_iff_toNat_lt, h]
  | @two b₀ _ h₀ h₁ =>
      have hfirst : ¬ b₀.toNat < 0x80 ∧ ¬ b₀.toNat < 0xC2 := by omega
      simp [Utf8.decode, payload, UInt8.lt_iff_toNat_lt, h₀, h₁, hfirst]
  | @three b₀ _ _ h₀ h₁ h₂ =>
      have hfirst : ¬ b₀.toNat < 0x80 ∧ ¬ b₀.toNat < 0xC2 ∧ ¬ b₀.toNat < 0xE0 := by omega
      simp [Utf8.decode, payload, UInt8.lt_iff_toNat_lt, h₀, h₁, h₂, hfirst]
  | @four b₀ _ _ _ h₀ h₁ h₂ h₃ =>
      have hfirst : ¬ b₀.toNat < 0x80 ∧ ¬ b₀.toNat < 0xC2 ∧ ¬ b₀.toNat < 0xE0 ∧ ¬ b₀.toNat < 0xF0 := by omega
      simp [Utf8.decode, payload, UInt8.lt_iff_toNat_lt, h₀, h₁, h₂, h₃, hfirst]

/-- **A text begins with a character, or with a byte that begins none.** -/
theorem decode_cases (b : UInt8) (t : Text) :
    decode (b :: t) = (replacement, 1) ∨ ∃ s c u, Sequence s c ∧ b :: t = s ++ u := by
  unfold decode
  simp only [UInt8.lt_iff_toNat_lt, UInt8.toNat_ofNat, Bool.and_eq_true, decide_eq_true_eq]
  -- by the first byte, which says how many others belong to the character
  split
  · exact .inr ⟨[b], _, t, .one ‹_›, rfl⟩
  split
  · exact .inl rfl
  split
  · rcases t with _ | ⟨b₁, t⟩
    · exact .inl rfl
    dsimp only
    split
    · exact .inr ⟨[b, b₁], _, t, .two (by omega) ‹_›, rfl⟩
    · exact .inl rfl
  split
  · rcases t with _ | ⟨b₁, _ | ⟨b₂, t⟩⟩
    · exact .inl rfl
    · exact .inl rfl
    dsimp only
    split
    · rename_i h
      exact .inr ⟨[b, b₁, b₂], _, t, .three (by omega) h.1 h.2, rfl⟩
    · exact .inl rfl
  split
  · rcases t with _ | ⟨b₁, _ | ⟨b₂, _ | ⟨b₃, t⟩⟩⟩
    · exact .inl rfl
    · exact .inl rfl
    · exact .inl rfl
    dsimp only
    split
    · rename_i h
      exact .inr ⟨[b, b₁, b₂, b₃], _, t, .four (by omega) h.1.1 h.1.2 h.2, rfl⟩
    · exact .inl rfl
  · exact .inl rfl

theorem decode_one {b : UInt8} (h : b.toNat < 0x80) (t : Text) : decode (b :: t) = (b.toNat, 1) :=
  (Sequence.one h).decode t

/-- Every character takes some byte. -/
theorem decode_width_pos (b : UInt8) (t : Text) : 0 < (decode (b :: t)).2 := by
  obtain h | ⟨s, c, u, hs, h⟩ := decode_cases b t
  · rw [h]
    exact Nat.one_pos
  · rw [h, hs.decode]
    cases hs <;> simp

theorem decode_width_le (b : UInt8) (t : Text) : (decode (b :: t)).2 ≤ t.length + 1 := by
  obtain h | ⟨s, c, u, hs, h⟩ := decode_cases b t
  · simp [h]
  · rw [← List.length_cons (a := b), h, hs.decode, List.length_append]
    exact Nat.le_add_right ..

/-- A character that stands at the beginning of a text stays there when the text goes on. -/
theorem decode_append (b : UInt8) (t u : Text) (h : decode (b :: t) ≠ (replacement, 1)) :
    decode (b :: t ++ u) = decode (b :: t) := by
  obtain ⟨s, c, v, hs, e⟩ := (decode_cases b t).resolve_left h
  rw [e, List.append_assoc, hs.decode, hs.decode]

/-- What stands at the beginning of a text depends on its own bytes only. -/
theorem decode_take (b : UInt8) (t : Text) {n : Nat} (h : (decode (b :: t)).2 ≤ n) :
    decode ((b :: t).take n) = decode (b :: t) := by
  have hpos := decode_width_pos b t
  obtain ⟨n, rfl⟩ : ∃ m, n = m + 1 := ⟨n - 1, by omega⟩
  obtain hcut | ⟨s, c, u, hs, e⟩ := decode_cases b (t.take n)
  · obtain hall | ⟨s, c, u, hs, e⟩ := decode_cases b t
    · rw [List.take_succ_cons, hcut, hall]
    · -- the character ends before the cut
      rw [e, hs.decode] at h
      rw [e, List.take_append, List.take_of_length_le h, hs.decode, hs.decode]
  · -- what stands before the cut stands in the whole text
    have hall : b :: t = s ++ (u ++ t.drop n) := by
      rw [← List.append_assoc, ← e, List.cons_append, List.take_append_drop]
    rw [List.take_succ_cons, e, hall, hs.decode, hs.decode]

/-- An ASCII character is spelled by one byte only: longer spellings of it are not valid. -/
theorem decode_ascii {b : UInt8} {t : Text} (h : (decode (b :: t)).1 < 128) :
    decode (b :: t) = (b.toNat, 1) := by
  obtain hinvalid | ⟨s, c, u, hs, e⟩ := decode_cases b t
  · rw [hinvalid] at h
    exact absurd h (by decide)
  · rw [e, hs.decode] at h ⊢
    dsimp only at h
    cases hs with
    | one hb =>
        obtain ⟨rfl, -⟩ := List.cons.inj e
        rfl
    | two => omega
    | three h₀ h₁ | four h₀ h₁ =>
        have := toNat_of_secondBounds h₁.1 h₁.2
        omega

/-! ### All characters -/

theorem glyphsFrom_eq (k : Nat) (t : Text) : glyphsFrom k t = glyphs (t.drop k) := by
  induction t generalizing k with
  | nil => cases k <;> simp [glyphs, glyphsFrom]
  | cons b t ih =>
      cases k with
      | zero => rfl
      | succ k => rw [glyphsFrom, ih, List.drop_succ_cons]

@[simp] theorem glyphs_nil : glyphs [] = [] := rfl

theorem glyphs_cons (b : UInt8) (t : Text) :
    glyphs (b :: t) =
      ⟨(decode (b :: t)).1, (b :: t).take (decode (b :: t)).2⟩ ::
        glyphs ((b :: t).drop (decode (b :: t)).2) := by
  have hpos := decode_width_pos b t
  rw [glyphs, glyphsFrom]
  dsimp only
  rw [glyphsFrom_eq]
  obtain ⟨n, hn⟩ : ∃ m, (decode (b :: t)).2 = m + 1 := ⟨(decode (b :: t)).2 - 1, by omega⟩
  rw [hn, List.drop_succ_cons, Nat.add_sub_cancel]

theorem glyphs_eq_cons (h : glyphs t = g :: gs) :
    ∃ b u, t = b :: u ∧ g = ⟨(decode t).1, t.take (decode t).2⟩ ∧
      gs = glyphs (t.drop (decode t).2) := by
  cases t with
  | nil => cases h
  | cons b u =>
      rw [glyphs_cons, List.cons.injEq] at h
      exact ⟨b, u, rfl, h.1.symm, h.2.symm⟩

@[simp] theorem bytesOf_nil : bytesOf [] = [] := rfl

@[simp] theorem bytesOf_cons : bytesOf (g :: gs) = g.bytes ++ bytesOf gs := rfl

@[simp] theorem bytesOf_append : bytesOf (gs ++ hs) = bytesOf gs ++ bytesOf hs :=
  List.flatMap_append

theorem bytesOf_flatMap {α : Type} {xs : List α} {f : α → List Glyph} {text : α → Text}
    (h : ∀ x ∈ xs, bytesOf (f x) = text x) : bytesOf (xs.flatMap f) = xs.flatMap text := by
  induction xs with
  | nil => rfl
  | cons x xs ih =>
      obtain ⟨hx, hxs⟩ := List.forall_mem_cons.1 h
      rw [List.flatMap_cons, bytesOf_append, hx, ih hxs, List.flatMap_cons]

/-- The bytes of the glyphs of a text are the text. -/
@[simp] theorem bytesOf_glyphs (t : Text) : bytesOf (glyphs t) = t := by
  generalize hgs : glyphs t = gs
  induction gs generalizing t with
  | nil =>
      cases t with
      | nil => rfl
      | cons b u => rw [glyphs_cons] at hgs; cases hgs
  | cons g gs ih =>
      obtain ⟨b, u, rfl, rfl, rfl⟩ := glyphs_eq_cons hgs
      rw [bytesOf_cons, ih _ rfl, List.take_append_drop]

/-- A text that is cut between two of its glyphs is read as before on both sides. -/
theorem glyphs_of_append (h : glyphs t = gs ++ hs) :
    glyphs (bytesOf gs) = gs ∧ glyphs (bytesOf hs) = hs := by
  induction gs generalizing t with
  | nil => exact ⟨rfl, by rw [← List.nil_append hs, ← h, bytesOf_glyphs]⟩
  | cons g gs ih =>
      obtain ⟨b, u, rfl, rfl, htail⟩ := glyphs_eq_cons h
      obtain ⟨hgs, hhs⟩ := ih htail.symm
      refine ⟨?_, hhs⟩
      -- the glyphs up to the cut are a beginning of the text, which has the first one whole
      obtain ⟨w, hw⟩ : ∃ w, w = (decode (b :: u)).2 := ⟨_, rfl⟩
      have hrest : (b :: u).drop w = bytesOf gs ++ bytesOf hs := by
        rw [← bytesOf_append, show gs ++ hs = _ from htail, bytesOf_glyphs, hw]
      have hall : (b :: u).take w ++ bytesOf gs = (b :: u).take (w + (bytesOf gs).length) := by
        rw [List.take_add, hrest, List.take_left]
      have hpos := decode_width_pos b u
      obtain ⟨n, hn⟩ : ∃ n, w + (bytesOf gs).length = n + 1 :=
        ⟨w + (bytesOf gs).length - 1, by omega⟩
      have hdec := decode_take b u (n := n + 1) (by omega)
      rw [bytesOf_cons, ← hw, hall, hn, List.take_succ_cons, glyphs_cons]
      rw [List.take_succ_cons] at hdec
      rw [hdec, ← hw, ← List.take_succ_cons, ← hn, ← hall]
      have hlen : ((b :: u).take w).length = w := by
        have := decode_width_le b u
        simp only [List.length_take, List.length_cons]
        omega
      rw [List.take_left' hlen, List.drop_left' hlen, hgs]

/-- A character of a text is the one character of its own bytes. -/
theorem glyphs_bytes_of_mem (h : g ∈ glyphs t) : glyphs g.bytes = [g] := by
  obtain ⟨gs, hs, hgs⟩ := List.append_of_mem h
  have hcut := (glyphs_of_append hgs).2
  rw [← List.singleton_append] at hcut
  simpa using (glyphs_of_append hcut).1

theorem width_pos_of_mem (h : g ∈ glyphs t) : 0 < g.width := by
  have hg := glyphs_bytes_of_mem h
  rw [Glyph.width, List.length_pos_iff]
  intro hnil
  rw [hnil] at hg
  cases hg

/-- A character of ASCII is a single byte. -/
theorem bytes_of_ascii (h : g ∈ glyphs t) (hcode : g.code < 128) : g.bytes = [g.code.toUInt8] := by
  obtain ⟨b, u, hb, hg, -⟩ := glyphs_eq_cons (glyphs_bytes_of_mem h)
  have hcode' : g.code = (decode g.bytes).1 := congrArg Glyph.code hg
  rw [hcode', hb] at hcode
  rw [hg, hb, decode_ascii hcode]
  simp

theorem width_of_ascii (h : g ∈ glyphs t) (hcode : g.code < 128) : g.width = 1 := by
  rw [Glyph.width, bytes_of_ascii h hcode, List.length_singleton]

/-! ### Texts that are put together -/

/-- A text is well-formed when none of its characters is an invalid byte. -/
theorem isValid_iff : isValid t ↔ ∀ g ∈ glyphs t, isInvalid g = false := by
  simp [isValid]

@[simp] theorem isValid_nil : isValid [] := rfl

/-- After a valid text another one is read as it is read alone. -/
theorem glyphs_append (h : isValid t) : glyphs (t ++ u) = glyphs t ++ glyphs u := by
  generalize hgs : glyphs t = gs
  rw [isValid_iff] at h
  induction gs generalizing t with
  | nil =>
      have : t = [] := by rw [← bytesOf_glyphs t, hgs, bytesOf_nil]
      rw [this, List.nil_append, List.nil_append]
  | cons g gs ih =>
      obtain ⟨b, v, rfl, hg, rfl⟩ := glyphs_eq_cons hgs
      have hvalid := h g (hgs ▸ List.mem_cons_self)
      have hlen := decode_width_le b v
      have hproper : decode (b :: v) ≠ (replacement, 1) := by
        intro hdec
        rw [hg, hdec] at hvalid
        simp [isInvalid, Glyph.width] at hvalid
      have hdec := decode_append b v u hproper
      rw [List.cons_append] at hdec ⊢
      rw [glyphs_cons, hdec, ← List.cons_append, List.take_append_of_le_length hlen,
        List.drop_append_of_le_length hlen, hg, List.cons_append]
      exact congrArg _ (ih (fun g hg => h g (hgs ▸ List.mem_cons_of_mem _ hg)) rfl)

/-- Well-formed texts make a well-formed text. -/
theorem isValid_append (ht : isValid t) (hu : isValid u) : isValid (t ++ u) := by
  rw [isValid_iff] at *
  intro g hg
  rw [glyphs_append (isValid_iff.2 ht), List.mem_append] at hg
  exact hg.elim (ht g) (hu g)

/-- Glyphs that are read as themselves are read as themselves side by side. -/
theorem glyphs_bytesOf (h : ∀ g ∈ gs, glyphs g.bytes = [g] ∧ isInvalid g = false) :
    glyphs (bytesOf gs) = gs := by
  induction gs with
  | nil => rfl
  | cons g gs ih =>
      obtain ⟨hg, hvalid⟩ := h g List.mem_cons_self
      rw [bytesOf_cons, glyphs_append (by simp [isValid, hg, hvalid]), hg,
        ih fun g' hg' => h g' (List.mem_cons_of_mem _ hg'), List.singleton_append]

/-! ### The bytes of a character -/

theorem isContinuation_of_secondBounds {b₀ b₁ : UInt8} (low : (secondBounds b₀).1 ≤ b₁)
    (high : b₁ ≤ (secondBounds b₀).2) : isContinuation b₁ = true :=
  isContinuation_iff.2 (toNat_of_secondBounds low high).1

theorem Sequence.isContinuation {s : Text} {c : Nat} (h : Sequence s c) :
    ∀ b ∈ s.tail, isContinuation b = true := by
  cases h with
  | one => simp
  | two _ h₁ => simp [h₁]
  | three _ h₁ h₂ => simp [isContinuation_of_secondBounds h₁.1 h₁.2, h₂]
  | four _ h₁ h₂ h₃ => simp [isContinuation_of_secondBounds h₁.1 h₁.2, h₂, h₃]

/-- All bytes of a character but the first are continuation bytes. -/
theorem isContinuation_of_mem_decode (b : UInt8) (t : Text) :
    ∀ c ∈ ((b :: t).take (decode (b :: t)).2).tail, isContinuation c = true := by
  obtain h | ⟨s, c, u, hs, e⟩ := decode_cases b t
  · simp [h]
  · rw [e, hs.decode, List.take_left]
    exact hs.isContinuation

/-- The bytes of a character after its first one are continuation bytes. -/
theorem isContinuation_of_mem_tail (h : g ∈ glyphs t) : ∀ c ∈ g.bytes.tail, isContinuation c = true := by
  obtain ⟨b, u, hb, hg, -⟩ := glyphs_eq_cons (glyphs_bytes_of_mem h)
  rw [hg, hb]
  exact isContinuation_of_mem_decode b u

theorem le_of_isContinuation (h : isContinuation b = true) : 128 ≤ b.toNat :=
  (isContinuation_iff.1 h).1

/-- The bytes of a character that is not in ASCII are not in ASCII. -/
theorem le_of_mem_bytes (h : g ∈ glyphs t) (hcode : 128 ≤ g.code) : ∀ c ∈ g.bytes, 128 ≤ c.toNat := by
  obtain ⟨b, u, hb, hg, -⟩ := glyphs_eq_cons (glyphs_bytes_of_mem h)
  have htail := isContinuation_of_mem_tail h
  rw [hb] at htail ⊢
  refine List.forall_mem_cons.2 ⟨?_, fun c hc => le_of_isContinuation (htail c hc)⟩
  by_contra hlt
  have hcode' : g.code = (decode g.bytes).1 := congrArg Glyph.code hg
  rw [hb, decode_one (by omega)] at hcode'
  omega

/-- A text has at most as many characters as bytes. -/
theorem length_glyphs_le (t : Text) : (glyphs t).length ≤ t.length := by
  generalize hgs : glyphs t = gs
  induction gs generalizing t with
  | nil => exact Nat.zero_le _
  | cons g gs ih =>
      have hpos := width_pos_of_mem (t := t) (g := g) (by simp [hgs])
      have hrest := ih (bytesOf gs) (@glyphs_of_append t [g] gs hgs).2
      have hlength := congrArg (fun gs => (bytesOf gs).length) hgs
      simp only [bytesOf_glyphs, bytesOf_cons, List.length_append] at hlength
      rw [Glyph.width] at hpos
      rw [List.length_cons]
      omega

/-! ### Beginnings -/

/-- A byte that continues nothing begins a character. -/
theorem exists_glyphs_of_first (hb : isContinuation b = false) (u v : Text) :
    ∃ gs, glyphs (u ++ b :: v) = gs ++ glyphs (b :: v) ∧ bytesOf gs = u := by
  induction hn : u.length using Nat.strongRecOn generalizing u with
  | _ n ih =>
      cases u with
      | nil => exact ⟨[], rfl, rfl⟩
      | cons x u =>
          have hpos := decode_width_pos x (u ++ b :: v)
          have hcontinue := isContinuation_of_mem_decode x (u ++ b :: v)
          rw [List.cons_append, glyphs_cons]
          generalize (decode (x :: (u ++ b :: v))).2 = w at hpos hcontinue ⊢
          obtain ⟨w, rfl⟩ : ∃ k, w = k + 1 := ⟨w - 1, by omega⟩
          by_cases hw : w ≤ u.length
          · -- the byte stands behind the first character
            obtain ⟨gs, hgs, hbytes⟩ := ih (u.drop w).length (by simp at hn ⊢; omega) (u.drop w) rfl
            rw [List.take_succ_cons, List.drop_succ_cons, List.drop_append_of_le_length hw,
              List.take_append_of_le_length hw, hgs]
            exact ⟨_ :: gs, rfl, by rw [bytesOf_cons, hbytes, List.cons_append, List.take_append_drop]⟩
          · -- it would be a byte of the first character, and not its first
            have hmem : b ∈ (u ++ b :: v).take w := by
              rw [List.take_append, List.take_of_length_le (by omega)]
              obtain ⟨k, hk⟩ : ∃ k, w - u.length = k + 1 := ⟨w - u.length - 1, by omega⟩
              simp [hk]
            rw [List.take_succ_cons, List.tail_cons] at hcontinue
            rw [hcontinue b hmem] at hb
            cases hb

end Utf8

/-- No character stands on both sides of the offset. -/
def Text.Boundary (t : Text) (n : Nat) : Prop :=
  ∃ before after, Utf8.glyphs t = before ++ after ∧ n = (Utf8.bytesOf before).length

end ModuleSystem
