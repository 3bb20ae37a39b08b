import Mathlib.Data.List.TakeWhile
import ModuleSystem.Proofs.Path
import ModuleSystem.Specifier

/-!
# Percent-encoded paths

A percent-encoded path has the same slashes as the path, nothing in it starts a query, and no escape in it
stands for a slash, so its pieces are the encoded pieces of the path, each of which is decoded again.

* `percentDecode_percentEncode`: decoding takes an encoding back.
* `splitOn_percentEncode`: the pieces of an encoding are the encoded pieces.
* `contains_percentEncode`: an escape in an encoding stands for a byte of the text.
-/

namespace ModuleSystem.Specifier

variable {p s t : Text} {b c : UInt8}

/-- The encoding of one byte. -/
def encodeByte (b : UInt8) : Text := if isUrlByte b then [b] else 37 :: Hex.digits Hex.upperDigit 2 b.toNat

theorem percentEncode_cons (b : UInt8) (p : Text) : percentEncode (b :: p) = encodeByte b ++ percentEncode p :=
  List.flatMap_cons

/-! ### Escapes -/

theorem digits_two (n : Nat) : Hex.digits Hex.upperDigit 2 n = [Hex.upperDigit (n / 16 % 16), Hex.upperDigit (n % 16)] :=
  rfl

/-- A hexadecimal digit has the value that it was written for. -/
theorem hexValue_upperDigit {n : Nat} (h : n < 16) : Ascii.hexValue? (Hex.upperDigit n) = some n.toUInt8 := by
  revert n
  decide

/-- Hexadecimal digits need no escape. -/
theorem upperDigit_plain {n : Nat} (h : n < 16) : isUrlByte (Hex.upperDigit n) = true ∧ Hex.upperDigit n ≠ 47 := by
  revert n
  decide

/-- Hexadecimal digits differ also in lower case. -/
theorem toLower_upperDigit : ∀ n < 16, ∀ k < 16,
    Ascii.toLower (Hex.upperDigit n) = Ascii.toLower (Hex.upperDigit k) → n = k := by
  decide

/-- The two digits of a byte make up the byte. -/
theorem digits_value (b : UInt8) : (b.toNat / 16 % 16).toUInt8 * 16 + (b.toNat % 16).toUInt8 = b := by
  have hb := UInt8.toNat_lt b
  apply UInt8.toNat_inj.1
  simp
  omega

/-- An encoded byte is the byte itself or an escape of it. -/
theorem encodeByte_cases (b : UInt8) :
    encodeByte b = [b] ∧ isUrlByte b = true ∨
      encodeByte b = [37, Hex.upperDigit (b.toNat / 16 % 16), Hex.upperDigit (b.toNat % 16)] ∧ isUrlByte b = false := by
  unfold encodeByte
  cases h : isUrlByte b with
  | true => exact .inl ⟨rfl, rfl⟩
  | false => exact .inr ⟨by simp [digits_two], rfl⟩

/-- A byte that is no percent sign stands for itself. -/
theorem percentDecode_plain (h : b ≠ 37) (t : Text) : percentDecode? (b :: t) = (percentDecode? t).map (b :: ·) := by
  match t with
  | [] | [_] | _ :: _ :: _ => simp [percentDecode?, h]

/-- An escape stands for its byte. -/
theorem percentDecode_escape (b : UInt8) (t : Text) :
    percentDecode? (37 :: Hex.upperDigit (b.toNat / 16 % 16) :: Hex.upperDigit (b.toNat % 16) :: t) =
      (percentDecode? t).map (b :: ·) := by
  rw [percentDecode?, if_pos rfl]
  simp only [hexValue_upperDigit (Nat.mod_lt _ (by decide)), digits_value]

/-- **Decoding takes an encoding back.** -/
theorem percentDecode_percentEncode (p : Text) : percentDecode? (percentEncode p) = some p := by
  induction p with
  | nil => rfl
  | cons b p ih =>
      rw [percentEncode_cons]
      obtain ⟨hb, hplain⟩ | ⟨hb, -⟩ := encodeByte_cases b
      · have hne : b ≠ 37 := by
          rintro rfl
          exact absurd hplain (by decide)
        rw [hb, List.singleton_append, percentDecode_plain hne, ih]
        rfl
      · rw [hb]
        exact (percentDecode_escape b (percentEncode p)).trans (by rw [ih]; rfl)

theorem mem_encodeByte (h : c ∈ encodeByte b) : isUrlByte c = true ∨ c = 37 := by
  obtain ⟨hb, hplain⟩ | ⟨hb, -⟩ := encodeByte_cases b
  · rw [hb, List.mem_singleton] at h
    exact .inl (h ▸ hplain)
  · rw [hb] at h
    simp only [List.mem_cons, List.not_mem_nil, or_false] at h
    obtain rfl | rfl | rfl := h
    · exact .inr rfl
    · exact .inl (upperDigit_plain (Nat.mod_lt _ (by decide))).1
    · exact .inl (upperDigit_plain (Nat.mod_lt _ (by decide))).1

/-- An encoded path has bytes that need no escape, and percent signs. -/
theorem mem_percentEncode (h : c ∈ percentEncode p) : isUrlByte c = true ∨ c = 37 := by
  obtain ⟨b, -, hc⟩ := List.mem_flatMap.1 h
  exact mem_encodeByte hc

/-- Nothing in an encoding starts a query or a fragment. -/
theorem withoutQuery_append_percentEncode (ht : ∀ c ∈ t, c ≠ 63 ∧ c ≠ 35) (p : Text) :
    withoutQuery (t ++ percentEncode p) = t ++ percentEncode p := by
  refine List.takeWhile_eq_self_iff.2 fun c hc => ?_
  obtain hc | hc := List.mem_append.1 hc
  · simpa using ht c hc
  · obtain hc | rfl := mem_percentEncode hc
    · have hquery : isUrlByte 63 = false := by decide
      have hfragment : isUrlByte 35 = false := by decide
      have h₁ : c ≠ 63 := fun heq => by rw [heq, hquery] at hc; cases hc
      have h₂ : c ≠ 35 := fun heq => by rw [heq, hfragment] at hc; cases hc
      simp [h₁, h₂]
    · decide

/-- An encoding without escapes is the text itself. -/
theorem percentEncode_of_notMem (h : 37 ∉ percentEncode p) : percentEncode p = p := by
  induction p with
  | nil => rfl
  | cons b p ih =>
      rw [percentEncode_cons, List.mem_append, not_or] at h
      obtain ⟨hb, -⟩ | ⟨hb, -⟩ := encodeByte_cases b
      · rw [percentEncode_cons, hb, ih h.2]
        rfl
      · exact absurd (by simp [hb]) h.1

/-! ### Pieces -/

/-- A text without a slash goes to the first piece. -/
theorem splitOn_append_piece (h : 47 ∉ s) (t : Text) :
    (s ++ t).splitOn 47 = (t.splitOn 47).modifyHead (s ++ ·) := by
  induction s with
  | nil => cases h : t.splitOn 47 <;> simp [h]
  | cons b s ih =>
      have hb : b ≠ 47 := fun heq => h (by simp [heq])
      have hs : 47 ∉ s := fun hmem => h (by simp [hmem])
      rw [List.cons_append, List.splitOn, List.splitOnP_cons_eq_if_modifyHead, if_neg (by simpa using hb)]
      rw [List.splitOn] at ih
      rw [ih hs, List.modifyHead_modifyHead]
      rfl

/-- Only a slash is encoded with a slash. -/
theorem slash_mem_encodeByte (h : 47 ∈ encodeByte b) : b = 47 := by
  obtain ⟨hb, -⟩ | ⟨hb, -⟩ := encodeByte_cases b
  · rw [hb, List.mem_singleton] at h
    exact h.symm
  · rw [hb] at h
    simp only [List.mem_cons, List.not_mem_nil, or_false] at h
    obtain h | h | h := h
    · exact absurd h (by decide)
    · exact absurd h.symm (upperDigit_plain (Nat.mod_lt _ (by decide))).2
    · exact absurd h.symm (upperDigit_plain (Nat.mod_lt _ (by decide))).2

/-- **The pieces of an encoding are the encoded pieces.** -/
theorem splitOn_percentEncode (p : Text) : (percentEncode p).splitOn 47 = (p.splitOn 47).map percentEncode := by
  induction p with
  | nil => simp [percentEncode]
  | cons b p ih =>
      obtain ⟨u, us, hus⟩ := List.exists_cons_of_ne_nil (List.splitOnP_ne_nil (· == 47) p)
      have hsplit : p.splitOn 47 = u :: us := hus
      rw [percentEncode_cons]
      by_cases hb : b = 47
      · subst hb
        have hslash : encodeByte 47 = [47] := by decide
        rw [hslash, List.singleton_append, ← List.nil_append (47 :: percentEncode p), Path.splitOn_append_slash, ih,
          ← List.nil_append (47 :: p), Path.splitOn_append_slash]
        simp [percentEncode]
      · have hpiece : (b :: p).splitOn 47 = (b :: u) :: us :=
          (splitOn_append_piece (s := [b]) (by simpa using Ne.symm hb) p).trans (by rw [hsplit]; rfl)
        rw [splitOn_append_piece (fun h => hb (slash_mem_encodeByte h)), ih, hpiece, hsplit, List.map_cons,
          List.map_cons, percentEncode_cons]
        rfl

/-! ### Hidden bytes -/

theorem toLower_ne (h : b ≠ 37) : Ascii.toLower b ≠ 37 := by
  unfold Ascii.toLower
  split
  · rename_i hcapital
    intro heq
    have hb : b = 5 := by
      rw [← UInt8.add_sub_cancel b 32, heq]
      rfl
    rw [hb] at hcapital
    exact absurd hcapital (by decide)
  · exact h

/-- An escape does not begin with another byte. -/
theorem contains_of_ne (h : b ≠ 37) (s : Text) : Text.contains (b :: t) (37 :: s) = Text.contains t (37 :: s) := by
  have hstart : Text.startsWith (b :: t) (37 :: s) = false := by
    have hbyte : (37 == b) = false := by simpa using Ne.symm h
    simp [Text.startsWith, List.isPrefixOf_cons_cons, hbyte]
  rw [Text.contains, Text.contains, Text.find?, if_neg (by rw [hstart]; decide), Option.isSome_map]

/-- An escape is found at the start, or behind its percent sign. -/
theorem contains_escape {h l x y : UInt8} (hcontains : Text.contains (37 :: h :: l :: t) [37, x, y] = true) :
    (h = x ∧ l = y) ∨ Text.contains (h :: l :: t) [37, x, y] = true := by
  rw [Text.contains, Text.find?] at hcontains
  split at hcontains
  · rename_i hstart
    simp only [Text.startsWith, List.isPrefixOf_cons_cons, Bool.and_eq_true, beq_iff_eq] at hstart
    exact .inl ⟨hstart.2.1.symm, hstart.2.2.1.symm⟩
  · exact .inr (by rwa [Option.isSome_map] at hcontains)

/-- **An escape in an encoding stands for a byte of the text.** -/
theorem contains_percentEncode {x y : Nat} (hx : x < 16) (hy : y < 16)
    (h : Text.contains ((percentEncode p).map Ascii.toLower)
      [37, Ascii.toLower (Hex.upperDigit x), Ascii.toLower (Hex.upperDigit y)] = true) :
    (x * 16 + y).toUInt8 ∈ p := by
  induction p with
  | nil => simp [percentEncode, Text.contains, Text.find?] at h
  | cons b p ih =>
      have hdigit : ∀ n < 16, Ascii.toLower (Hex.upperDigit n) ≠ 37 := by decide
      have hhigh := Nat.mod_lt (b.toNat / 16) (by decide : 16 > 0)
      have hlow := Nat.mod_lt b.toNat (by decide : 16 > 0)
      rw [percentEncode_cons, List.map_append] at h
      obtain ⟨hb, hplain⟩ | ⟨hb, -⟩ := encodeByte_cases b
      · have hne : b ≠ 37 := by
          rintro rfl
          exact absurd hplain (by decide)
        rw [hb, List.map_cons, List.map_nil, List.singleton_append, contains_of_ne (toLower_ne hne)] at h
        exact List.mem_cons_of_mem b (ih h)
      · rw [hb] at h
        -- the escape is that of the first byte, or it stands further on
        obtain ⟨hh, hl⟩ | h := contains_escape h
        · obtain rfl := toLower_upperDigit _ hhigh _ hx hh
          obtain rfl := toLower_upperDigit _ hlow _ hy hl
          have hvalue : (b.toNat / 16 % 16 * 16 + b.toNat % 16).toUInt8 = b := by
            refine Eq.trans ?_ (digits_value b)
            simp
          rw [hvalue]
          exact List.mem_cons_self
        · rw [contains_of_ne (hdigit _ hhigh), contains_of_ne (hdigit _ hlow)] at h
          exact List.mem_cons_of_mem b (ih h)

end ModuleSystem.Specifier
