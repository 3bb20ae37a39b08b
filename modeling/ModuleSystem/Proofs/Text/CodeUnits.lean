import Mathlib.Data.List.Basic
import ModuleSystem.Proofs.Text.Quoting

/-!
# Code units — every sequence has its own text

A sequence of code units is spelled by code points, and surrogates without partner are spelled too.  A pair is
formed wherever a first half stands directly before a second one, so reading a text again splits and joins
nothing that was not split or joined before.

* `Utf16.ofText_toText`: a text is read back as the code units that it was made of.
* `Utf16.Unpaired`: a surrogate without partner, told by its place among the units.
* `Utf16.finds_unpaired?`: the first one of them is the first surrogate among the code points.
* `Utf16.toText_faithful`: the text determines the code units, and it is valid where no surrogate lacks its
  partner.
-/

namespace ModuleSystem.Utf16

open Utf8

/-! ### Code points fall apart into their units -/

theorem units_toNat (u : UInt16) : units u.toNat = [u] := by
  have hu := u.toNat_lt
  rw [units, if_pos (by omega)]
  simp

theorem units_pair {u v : UInt16} (hu : isHigh u = true) (hv : isLow v = true) : units (pair u v) = [u, v] := by
  simp only [isHigh, isLow, Bool.and_eq_true, decide_eq_true_eq, UInt16.le_iff_toNat_le, UInt16.toNat_ofNat]
    at hu hv
  have hcode : pair u v - 0x10000 = (u.toNat - 0xD800) * 1024 + (v.toNat - 0xDC00) := by
    unfold pair
    omega
  have hfirst : 0xD800 + (pair u v - 0x10000) / 1024 % 1024 = u.toNat := by rw [hcode]; omega
  have hsecond : 0xDC00 + (pair u v - 0x10000) % 1024 = v.toNat := by rw [hcode]; omega
  rw [units, if_neg (by unfold pair; omega), hfirst, hsecond]
  simp

/-- The units of the code points of a string are the units of that string. -/
theorem flatMap_units_codePoints (us : List UInt16) : (codePoints us).flatMap units = us := by
  fun_induction codePoints us with
  | case1 => rfl
  | case2 u => rw [List.flatMap_cons, units_toNat]; rfl
  | case3 u v us hpair ih =>
      rw [Bool.and_eq_true] at hpair
      rw [List.flatMap_cons, units_pair hpair.1 hpair.2, ih]
      rfl
  | case4 u v us _ ih =>
      rw [List.flatMap_cons, units_toNat, ih]
      rfl

/-- The code units of a text. -/
def ofText (t : Text) : List UInt16 := (glyphs t).flatMap fun g => units g.code

/-- A text made of a string gives the string back. -/
theorem ofText_toText (us : List UInt16) : ofText (toText us) = us := by
  rw [ofText, toText, glyphs_encodeRaws codePoints_le, List.flatMap_map]
  exact flatMap_units_codePoints us

/-- Code units are found again in their text. -/
theorem toText_injective : Function.Injective toText := Function.LeftInverse.injective ofText_toText

/-! ### Texts that are strings -/

theorem toNat_toUInt16 {n : Nat} (h : n < 65536) : n.toUInt16.toNat = n := by
  simpa using h

/-- Code points that are no surrogates are read back from their units. -/
theorem codePoints_units {cs : List Nat} (h : ∀ c ∈ cs, c ≤ 0x10FFFF ∧ isSurrogate c = false) :
    codePoints (cs.flatMap units) = cs := by
  induction cs with
  | nil => rfl
  | cons c cs ih =>
      obtain ⟨⟨hle, hsurrogate⟩, hcs⟩ := List.forall_mem_cons.1 h
      rw [isSurrogate_eq_false] at hsurrogate
      rw [List.flatMap_cons, units]
      split
      · -- a single unit is no high surrogate, so it does not pair with what follows
        rename_i hshort
        have hcode : c.toUInt16.toNat = c := toNat_toUInt16 (by omega)
        have hnot : isHigh c.toUInt16 = false := by
          simp only [isHigh, Bool.and_eq_false_iff, decide_eq_false_iff_not, UInt16.le_iff_toNat_le,
            UInt16.toNat_ofNat, hcode]
          omega
        cases hus : cs.flatMap units with
        | nil =>
            rw [hus] at ih
            rw [List.append_nil, codePoints, hcode, ← ih hcs]
            rfl
        | cons v vs =>
            rw [hus] at ih
            rw [List.singleton_append, codePoints, hnot, Bool.false_and, if_neg Bool.false_ne_true, hcode, ih hcs]
      · rename_i hlong
        have hhigh : (0xD800 + (c - 0x10000) / 1024 % 1024).toUInt16.toNat = 0xD800 + (c - 0x10000) / 1024 % 1024 :=
          toNat_toUInt16 (by omega)
        have hlow : (0xDC00 + (c - 0x10000) % 1024).toUInt16.toNat = 0xDC00 + (c - 0x10000) % 1024 :=
          toNat_toUInt16 (by omega)
        -- the two units of a longer code point are a pair
        have hpair : (isHigh (0xD800 + (c - 0x10000) / 1024 % 1024).toUInt16 &&
            isLow (0xDC00 + (c - 0x10000) % 1024).toUInt16) = true := by
          simp only [isHigh, isLow, Bool.and_eq_true, decide_eq_true_eq, UInt16.le_iff_toNat_le, UInt16.toNat_ofNat,
            hhigh, hlow]
          omega
        have hcode : pair (0xD800 + (c - 0x10000) / 1024 % 1024).toUInt16
            (0xDC00 + (c - 0x10000) % 1024).toUInt16 = c := by
          rw [pair, hhigh, hlow]
          omega
        rw [List.cons_append, List.cons_append, List.nil_append, codePoints, if_pos hpair, ih hcs, hcode]

/-- The code points of a valid text, as its code units have them. -/
theorem codePoints_ofText {t : Text} (h : isValid t) :
    codePoints (ofText t) = t.codes ∧ ∀ c ∈ t.codes, c ≤ 0x10FFFF ∧ isSurrogate c = false := by
  have hscalar : ∀ c ∈ t.codes, c ≤ 0x10FFFF ∧ isSurrogate c = false := by
    intro c hc
    obtain ⟨g, hg, rfl⟩ := List.mem_map.1 hc
    obtain ⟨hle, hsurrogate, -⟩ := bytes_of_valid (glyphs_bytes_of_mem hg) (isValid_iff.1 h g hg)
    exact ⟨hle, hsurrogate⟩
  rw [ofText, glyphs_eq h, ← List.flatMap_map]
  exact ⟨codePoints_units hscalar, hscalar⟩

/-- A well-formed text is made again of its units. -/
theorem toText_ofText {t : Text} (h : isValid t) : toText (ofText t) = t := by
  rw [toText, (codePoints_ofText h).1, Text.codes, List.flatMap_map]
  conv_rhs => rw [← bytesOf_glyphs t]
  exact List.flatMap_congr fun g hg =>
    (bytes_of_valid (glyphs_bytes_of_mem hg) (isValid_iff.1 h g hg)).2.2.symm

/-- Every valid text is that of some code units. -/
theorem exists_toText {t : Text} (h : isValid t) : ∃ us, t = toText us :=
  ⟨ofText t, (toText_ofText h).symm⟩

/-- A text of code points that are no surrogates is valid. -/
theorem isValid_encodeRaws {cs : List Nat} (h : ∀ c ∈ cs, c ≤ 0x10FFFF ∧ isSurrogate c = false) :
    isValid (cs.flatMap encodeRaw) := by
  induction cs with
  | nil => rfl
  | cons c cs ih =>
      obtain ⟨⟨hle, hsurrogate⟩, hcs⟩ := List.forall_mem_cons.1 h
      obtain ⟨hglyphs, hvalid⟩ := glyphs_encodeRaw hle hsurrogate
      rw [List.flatMap_cons]
      exact isValid_append (isValid_iff.2 (by simp [hglyphs, hvalid])) (ih hcs)

/-- A text of code units is valid when none of its code points is a surrogate, and only then. -/
theorem isValid_toText {us : List UInt16} :
    isValid (toText us) ↔ ∀ c ∈ codePoints us, isSurrogate c = false := by
  constructor
  · intro h
    obtain ⟨hcodes, hscalar⟩ := codePoints_ofText h
    rw [ofText_toText] at hcodes
    rw [hcodes]
    exact fun c hc => (hscalar c hc).2
  · exact fun h => isValid_encodeRaws fun c hc => ⟨codePoints_le c hc, h c hc⟩

/-! ### Surrogates without partner -/

/-- The unit at a place is a surrogate without partner: the first half of a pair with no second half after it,
or the second half with no first half before it. -/
def Unpaired (us : List UInt16) (i : Nat) : Prop :=
  ∃ u ∈ us[i]?, (isHigh u = true ∧ ∀ v ∈ us[i + 1]?, isLow v = false) ∨
    (isLow u = true ∧ (i = 0 ∨ ∀ v ∈ us[i - 1]?, isHigh v = false))

variable {us : List UInt16} {u v : UInt16}

theorem isSurrogate_toNat (u : UInt16) : isSurrogate u.toNat = (isHigh u || isLow u) := by
  rw [Bool.eq_iff_iff]
  simp only [isSurrogate, isHigh, isLow, Bool.or_eq_true, Bool.and_eq_true, decide_eq_true_eq,
    UInt16.le_iff_toNat_le, UInt16.toNat_ofNat]
  omega

theorem isHigh_eq_false (h : isLow u = true) : isHigh u = false := by
  simp only [isHigh, isLow, Bool.and_eq_true, Bool.and_eq_false_iff, decide_eq_true_eq, decide_eq_false_iff_not,
    UInt16.le_iff_toNat_le, UInt16.toNat_ofNat] at *
  omega

theorem not_unpaired_nil (i : Nat) : ¬ Unpaired [] i := by
  rintro ⟨u, hu, -⟩
  cases hu

theorem unpaired_singleton {i : Nat} : Unpaired [u] i ↔ i = 0 ∧ isSurrogate u.toNat = true := by
  rw [isSurrogate_toNat, Bool.or_eq_true]
  cases i with
  | zero => simp [Unpaired]
  | succ i => simp [Unpaired]

/-- Neither half of a pair lacks its partner, and what follows a pair is left as it is. -/
theorem unpaired_pair (hu : isHigh u = true) (hv : isLow v = true) {i : Nat} :
    Unpaired (u :: v :: us) i ↔ ∃ j, i = j + 2 ∧ Unpaired us j := by
  have hlow : isLow u = false := by
    by_contra h
    rw [isHigh_eq_false (Bool.not_eq_false _ ▸ h)] at hu
    cases hu
  have hhigh := isHigh_eq_false hv
  match i with
  | 0 => simp [Unpaired, hlow, hv]
  | 1 => simp [Unpaired, hhigh, hu]
  | 2 => simp [Unpaired, hhigh]
  | i + 3 => simp [Unpaired]

/-- A unit that is the first half of no pair takes nothing from what follows it. -/
theorem unpaired_cons (h : ¬ (isHigh u && isLow v) = true) {i : Nat} :
    Unpaired (u :: v :: us) i ↔
      (i = 0 ∧ isSurrogate u.toNat = true) ∨ ∃ j, i = j + 1 ∧ Unpaired (v :: us) j := by
  rw [isSurrogate_toNat, Bool.or_eq_true]
  rw [Bool.and_eq_true] at h
  match i with
  | 0 =>
      have hv : isHigh u = true → isLow v = false := fun hu => by simpa [hu] using h
      simp only [Unpaired]
      grind
  | 1 =>
      simp only [Unpaired]
      grind
  | i + 2 => simp [Unpaired]

/-- The unit `u` is the first surrogate without partner. -/
def FirstUnpaired (us : List UInt16) (u : UInt16) : Prop :=
  ∃ i, us[i]? = some u ∧ Unpaired us i ∧ ∀ j < i, ¬ Unpaired us j

/-- At most one surrogate is the first without partner. -/
theorem FirstUnpaired.unique (hu : FirstUnpaired us u) (hv : FirstUnpaired us v) : u = v := by
  obtain ⟨i, hi, hunpaired, hfirst⟩ := hu
  obtain ⟨j, hj, hunpaired', hfirst'⟩ := hv
  obtain hlt | rfl | hlt := Nat.lt_trichotomy i j
  · exact absurd hunpaired (hfirst' i hlt)
  · exact Option.some.inj (hi.symm.trans hj)
  · exact absurd hunpaired' (hfirst j hlt)

/-- What a search for the first surrogate without partner ends with. -/
def Finds (us : List UInt16) : Option UInt16 → Prop
  | none => ∀ i, ¬ Unpaired us i
  | some u => FirstUnpaired us u

/-- Units in front that all have their partners, and that take none from what follows, do not matter. -/
theorem Finds.shift {vs : List UInt16} {k : Nat} {o : Option UInt16} (h : Finds us o)
    (hget : ∀ i, vs[i + k]? = us[i]?) (hunpaired : ∀ i, Unpaired vs i ↔ ∃ j, i = j + k ∧ Unpaired us j) :
    Finds vs o := by
  cases o with
  | none =>
      intro i hi
      obtain ⟨j, -, hj⟩ := (hunpaired i).1 hi
      exact h j hj
  | some u =>
      obtain ⟨i, hi, hat, hfirst⟩ := h
      refine ⟨i + k, (hget i).trans hi, (hunpaired _).2 ⟨i, rfl, hat⟩, fun j hj hat' => ?_⟩
      obtain ⟨l, rfl, hl⟩ := (hunpaired j).1 hat'
      exact hfirst l (by omega) hl

/-- The first surrogate among the code points is the first one without partner. -/
theorem finds_unpaired? (us : List UInt16) : Finds us (unpaired? us) := by
  unfold unpaired?
  fun_induction codePoints us with
  | case1 => exact not_unpaired_nil
  | case2 u =>
      cases hu : isSurrogate u.toNat with
      | false => simp [hu, Finds, unpaired_singleton]
      | true =>
          have hfirst : Finds [u] (some u) := ⟨0, rfl, unpaired_singleton.2 ⟨rfl, hu⟩, by simp⟩
          simpa [hu] using hfirst
  | case3 u v us hpair ih =>
      rw [Bool.and_eq_true] at hpair
      have hcode : isSurrogate (pair u v) = false := isSurrogate_eq_false.2 (.inr (by unfold pair; omega))
      rw [List.find?_cons, hcode]
      exact ih.shift (fun i => rfl) fun i => unpaired_pair hpair.1 hpair.2
  | case4 u v us hpair ih =>
      rw [List.find?_cons]
      cases hu : isSurrogate u.toNat with
      | false => exact ih.shift (k := 1) (fun i => rfl) fun i => by simp [unpaired_cons hpair, hu]
      | true =>
          have hfirst : Finds (u :: v :: us) (some u) :=
            ⟨0, rfl, (unpaired_cons hpair).2 (.inl ⟨rfl, hu⟩), by simp⟩
          simpa using hfirst

/-- A search that finds nothing has found no surrogate among the code points. -/
theorem unpaired?_eq_none_iff : unpaired? us = none ↔ ∀ c ∈ codePoints us, isSurrogate c = false := by
  simp [unpaired?]

/-- The text of code units, read from left to right, gives the code units back, so it determines them.  It is
refused exactly when some surrogate lacks its partner, for the first one that does; and it is the same text
and valid UTF-8 exactly when none does. -/
theorem toText_faithful (us : List UInt16) :
    (glyphs (toText us)).flatMap (fun g => units g.code) = us ∧ Function.Injective toText ∧
      (∀ t, toText? us = .ok t ↔ (∀ i, ¬ Unpaired us i) ∧ t = toText us) ∧
      (isValid (toText us) ↔ ∀ i, ¬ Unpaired us i) ∧
      ∀ u, toText? us = .error u ↔ FirstUnpaired us u := by
  refine ⟨ofText_toText us, toText_injective, ?_⟩
  have hfinds := finds_unpaired? us
  rw [isValid_toText, ← unpaired?_eq_none_iff]
  unfold toText?
  cases hu : unpaired? us with
  | none =>
      rw [hu] at hfinds
      refine ⟨fun t => ⟨?_, ?_⟩, iff_of_true rfl hfinds, fun u => iff_of_false (by simp) ?_⟩
      · rintro ⟨⟩
        exact ⟨hfinds, rfl⟩
      · rintro ⟨-, rfl⟩
        rfl
      · rintro ⟨i, -, hat, -⟩
        exact hfinds i hat
  | some u =>
      rw [hu] at hfinds
      have hsome : ¬ ∀ i, ¬ Unpaired us i := by
        obtain ⟨i, -, hat, -⟩ := hfinds
        exact fun hall => hall i hat
      refine ⟨fun t => iff_of_false (by simp) fun h => hsome h.1, iff_of_false (by simp) hsome, fun v => ⟨?_, ?_⟩⟩
      · rintro ⟨⟩
        exact hfinds
      · intro hv
        rw [FirstUnpaired.unique hfinds hv]

end ModuleSystem.Utf16
