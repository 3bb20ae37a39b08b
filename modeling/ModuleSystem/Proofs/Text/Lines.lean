import ModuleSystem.Compile.Edit
import ModuleSystem.Proofs.Lexer.Place

/-!
# Lines — the terminators of a text

The line terminators of a text do not yet tell on which line a character stands: a line feed that
directly follows a carriage return ends no line of its own.  So the number of a line can change when
what stands between the two is taken away, and it cannot where every carriage return is followed by its
line feed anyway.

* `Text.lineEnds`: the line terminators of a text; `Text.Inline`: a text without any.
* `Text.Joint`: two texts whose line terminators do not touch.
* `Line.ended_append`: after a text with paired carriage returns, lines are counted as from the start.
-/

namespace ModuleSystem

namespace Text

open Utf8 (glyphs isValid bytesOf)

variable {t u v : Text}

/-! ### Line terminators -/

/-- The code points of a text. -/
def codes (t : Text) : List Nat := (glyphs t).map (·.code)

/-- The line terminators of a text, in order. -/
def lineEnds (t : Text) : List Nat := t.codes.filter isLineEnd

@[simp] theorem codes_nil : codes [] = [] := rfl

/-- Behind a well-formed text the characters are those of what follows. -/
theorem codes_append (h : isValid t) : codes (t ++ u) = t.codes ++ u.codes := by
  rw [codes, Utf8.glyphs_append h, List.map_append]
  rfl

/-- Behind a well-formed text the line terminators are those of what follows. -/
theorem lineEnds_append (h : isValid t) : lineEnds (t ++ u) = t.lineEnds ++ u.lineEnds := by
  rw [lineEnds, codes_append h, List.filter_append]
  rfl

/-- The second part of a valid text is valid, if the first one is. -/
theorem isValid_right (h : isValid (t ++ u)) (ht : isValid t) : isValid u := by
  rw [Utf8.isValid_iff, Utf8.glyphs_append ht] at h
  exact Utf8.isValid_iff.2 fun g hg => h g (List.mem_append_right _ hg)

/-- A text without line terminators. -/
structure Inline (t : Text) : Prop where
  valid : isValid t
  lineEnds : t.lineEnds = []

instance : Decidable (Inline t) :=
  decidable_of_iff (isValid t ∧ t.lineEnds = []) ⟨fun h => ⟨h.1, h.2⟩, fun h => ⟨h.1, h.2⟩⟩

theorem Inline.nil : Inline [] := ⟨rfl, rfl⟩

theorem Inline.append (ht : Inline t) (hu : Inline u) : Inline (t ++ u) :=
  ⟨Utf8.isValid_append ht.valid hu.valid, by
    rw [lineEnds_append ht.valid, ht.lineEnds, hu.lineEnds, List.nil_append]⟩

theorem Inline.flatMap {α : Type} {xs : List α} {f : α → Text} (h : ∀ x ∈ xs, Inline (f x)) :
    Inline (xs.flatMap f) := by
  induction xs with
  | nil => exact .nil
  | cons x xs ih =>
      rw [List.flatMap_cons]
      exact (h x List.mem_cons_self).append (ih fun y hy => h y (List.mem_cons_of_mem _ hy))

theorem Inline.joinWith {sep : Text} {ts : List Text} (hsep : Inline sep)
    (h : ∀ t ∈ ts, Inline t) : Inline (joinWith sep ts) := by
  unfold Text.joinWith
  induction ts with
  | nil => exact .nil
  | cons t ts ih =>
      have ht := h t List.mem_cons_self
      have hts := ih fun u hu => h u (List.mem_cons_of_mem _ hu)
      cases ts with
      | nil => simpa [List.intercalate] using ht
      | cons u ts =>
          have hcons : List.intercalate sep (t :: u :: ts) = t ++ (sep ++ List.intercalate sep (u :: ts)) := by
            simp [List.intercalate, List.intersperse]
          rw [hcons]
          exact ht.append (hsep.append hts)

/-- A text is on one line when each of its characters is valid and ends no line. -/
theorem inline_of_glyphs (h : ∀ g ∈ glyphs t, Utf8.isInvalid g = false ∧ isLineEnd g.code = false) :
    Inline t := by
  refine ⟨Utf8.isValid_iff.2 fun g hg => (h g hg).1, List.filter_eq_nil_iff.2 fun c hc => ?_⟩
  obtain ⟨g, hg, rfl⟩ := List.mem_map.1 hc
  simp [(h g hg).2]

/-- What is left of a text when all but its line terminators is taken away. -/
theorem codes_lineBreaks (h : isValid t) : codes (Edit.lineBreaks t) = t.lineEnds ∧
    isValid (Edit.lineBreaks t) := by
  have hglyphs : glyphs (Edit.lineBreaks t) = (glyphs t).filter fun g => isLineEnd g.code :=
    Utf8.glyphs_bytesOf fun g hg => ⟨Utf8.glyphs_bytes_of_mem (List.mem_filter.1 hg).1,
      Utf8.isValid_iff.1 h g (List.mem_filter.1 hg).1⟩
  refine ⟨?_, Utf8.isValid_iff.2 fun g hg => ?_⟩
  · rw [codes, hglyphs, lineEnds, codes, List.filter_map]
    rfl
  · rw [hglyphs] at hg
    exact Utf8.isValid_iff.1 h g (List.mem_filter.1 hg).1

/-! ### Joints -/

/-- Two valid texts, not both of which have a line terminator where they meet. -/
structure Joint (t u : Text) : Prop where
  left : isValid t
  right : isValid u
  apart : (∀ c ∈ t.codes.getLast?, isLineEnd c = false) ∨ ∀ c ∈ u.codes.head?, isLineEnd c = false

/-- Where a text can be cut, its parts meet in a joint. -/
theorem Seam.joint (h : (t ++ u).Seam t.length) (hvalid : isValid (t ++ u)) : Joint t u := by
  obtain ⟨before, after, hglyphs, hlen, hends⟩ := h
  have htext : bytesOf before ++ bytesOf after = t ++ u := by
    rw [← Utf8.bytesOf_append, ← hglyphs, Utf8.bytesOf_glyphs]
  obtain ⟨rfl, rfl⟩ := List.append_inj htext hlen.symm
  obtain ⟨hbefore, hafter⟩ := Utf8.glyphs_of_append hglyphs
  have hvalid' := Utf8.isValid_iff.1 hvalid
  rw [hglyphs] at hvalid'
  refine ⟨Utf8.isValid_iff.2 fun g hg => ?_, Utf8.isValid_iff.2 fun g hg => ?_, ?_⟩
  · exact hvalid' g (List.mem_append_left _ (hbefore ▸ hg))
  · exact hvalid' g (List.mem_append_right _ (hafter ▸ hg))
  · simpa [codes, hbefore, hafter, List.getLast?_map] using hends

theorem Joint.of_append (h : Joint (t ++ u) v) (ht : isValid t) : Joint u v := by
  refine ⟨isValid_right h.left ht, h.right, h.apart.imp_left fun hlast c hc => hlast c ?_⟩
  rw [codes_append ht, List.getLast?_append]
  simp_all

/-! ### Carriage returns -/

/-- Every carriage return is directly followed by a line feed. -/
def paired : List Nat → Bool
  | [] => true
  | c :: cs => (c != 13 || cs.head? == some 10) && paired cs

theorem paired_append {cs ds : List Nat} (hcs : paired cs) (hds : paired ds) : paired (cs ++ ds) := by
  induction cs with
  | nil => exact hds
  | cons c cs ih =>
      simp only [paired, List.cons_append, Bool.and_eq_true] at hcs ⊢
      refine ⟨?_, ih hcs.2⟩
      cases cs with
      | nil => simpa using Or.inl hcs.1
      | cons d cs => simpa using hcs.1

theorem paired_filter {cs : List Nat} (h : paired cs) : paired (cs.filter isLineEnd) := by
  induction cs with
  | nil => rfl
  | cons c cs ih =>
      simp only [paired, Bool.and_eq_true, Bool.or_eq_true, bne_iff_ne, beq_iff_eq] at h
      rw [List.filter_cons]
      split
      · simp only [paired, ih h.2, Bool.and_true, Bool.or_eq_true, bne_iff_ne, beq_iff_eq]
        refine h.1.imp_right fun hhead => ?_
        obtain ⟨ds, rfl⟩ := List.head?_eq_some_iff.1 hhead
        rfl
      · exact ih h.2

/-- A carriage return and its line feed stand on one side of a joint. -/
theorem Joint.paired (h : Joint t u) (hpaired : paired (codes (t ++ u))) :
    paired t.codes ∧ paired u.codes := by
  rw [codes_append h.left] at hpaired
  have hapart := h.apart
  revert hapart hpaired
  generalize t.codes = cs
  generalize u.codes = ds
  intro hpaired hapart
  induction cs with
  | nil => exact ⟨rfl, hpaired⟩
  | cons c cs ih =>
      simp only [Text.paired, List.cons_append, Bool.and_eq_true] at hpaired ⊢
      cases cs with
      | nil =>
          have hne : c ≠ 13 := by
            rintro rfl
            have hhead : ds.head? = some 10 := by simpa using hpaired.1
            simp [hhead, isLineEnd] at hapart
          exact ⟨⟨by simp [hne], rfl⟩, hpaired.2⟩
      | cons d cs =>
          obtain ⟨hcs, hds⟩ := ih hpaired.2 (by simpa using hapart)
          exact ⟨⟨by simpa using hpaired.1, hcs⟩, hds⟩

end Text

namespace Line

/-! ### Counting lines -/

/-- The number of lines that end; `cr` tells that a carriage return came last. -/
def ended (cr : Bool) : List Nat → Nat
  | [] => 0
  | c :: cs =>
    if c = 10 then (if cr then 0 else 1) + ended false cs
    else if c = 13 then 1 + ended true cs
    else if c = 0x2028 || c = 0x2029 then 1 + ended false cs
    else ended false cs

/-- Going through characters counts the lines that end in them. -/
theorem advance_number (pos number start : Nat) (cr : Bool) (gs : List Glyph) :
    (advance pos number start cr gs).1 = number + ended cr (gs.map (·.code)) := by
  induction gs generalizing pos number start cr with
  | nil => rfl
  | cons g gs ih =>
      simp only [advance, ended, List.map_cons]
      split_ifs <;> rw [ih] <;> omega

/-- The number of a line is the number of lines that end before it. -/
theorem containing_number (t : Text) (n : Nat) :
    (containing t n).number = ended false (Text.codes (t.take n)) := by
  have hnumber := advance_number 0 0 0 false (Utf8.glyphs (t.take n))
  rw [Nat.zero_add] at hnumber
  exact hnumber

/-- The line terminators other than carriage returns. -/
def closes (c : Nat) : Bool := isLineEnd c && c != 13

/-- After a text with paired carriage returns, lines are counted as from the start. -/
theorem ended_append {cr : Bool} {cs ds : List Nat} (h : Text.paired cs)
    (hcr : cr = true → cs.head? = some 10) :
    ended cr (cs ++ ds) + cr.toNat = (cs.filter closes).length + ended false ds := by
  induction cs generalizing cr with
  | nil =>
      cases cr with
      | false => simp
      | true => simp at hcr
  | cons c cs ih =>
      simp only [Text.paired, Bool.and_eq_true, Bool.or_eq_true, bne_iff_ne, beq_iff_eq] at h
      have hfalse := @ih false h.2 (by simp)
      simp only [List.cons_append, ended, List.filter_cons, closes, isLineEnd]
      -- by the character: a line feed may end the terminator that the character before began
      by_cases hlf : c = 10
      · cases cr <;> simp_all <;> omega
      · have hcr' : cr = false := by
          cases cr with
          | false => rfl
          | true => simp_all
        by_cases hret : c = 13
        · have htrue := @ih true h.2 fun _ => h.1.resolve_left (by simp [hret])
          rw [hcr']
          simp only [hret, Bool.toNat_true] at htrue ⊢
          simp only [Bool.toNat_false, reduceIte, Nat.reduceEqDiff, bne_self_eq_false, Bool.and_false,
            Bool.false_eq_true]
          omega
        · by_cases hsep : c = 0x2028 ∨ c = 0x2029
          · obtain rfl | rfl := hsep <;> simp_all <;> omega
          · simp_all

theorem filter_closes (cs : List Nat) : (cs.filter isLineEnd).filter closes = cs.filter closes := by
  rw [List.filter_filter]
  congr 1
  funext c
  simp [closes]
  grind

/-- Two texts that go on alike have their offsets on the same lines, if what comes before has the same
line terminators and paired carriage returns. -/
theorem ended_append_congr {cs cs' ds : List Nat} (h : Text.paired cs) (h' : Text.paired cs')
    (hends : cs.filter isLineEnd = cs'.filter isLineEnd) :
    ended false (cs ++ ds) = ended false (cs' ++ ds) := by
  have hcs := @ended_append false cs ds h (by simp)
  have hcs' := @ended_append false cs' ds h' (by simp)
  rw [← filter_closes, hends, filter_closes] at hcs
  simp only [Bool.toNat_false] at hcs hcs'
  omega

end Line

end ModuleSystem
