import Mathlib.Data.Nat.Count
import ModuleSystem.Diagnostic
import ModuleSystem.Proofs.Text.Quoting

/-!
# Locations — the line of an offset

A location is found by reading characters from the beginning of the text.  What it tells can be said without
reading any: a line terminator is one of four texts, it ends where one of them stands in front of an offset, and
the number of an offset's line is the number of offsets up to it where one ends.

* `Text.endsLineAt`: a line terminator ends at an offset; `Text.IsLine`: what stands between two of them.
* `Text.encodeRaw_suffix_iff`, `Text.encodeRaw_prefix_iff`, `Text.encodeRaw_infix_iff`: terminators among the
  bytes are terminators among the characters.
* `Line.ended_eq_count`: counting by characters and counting by offsets agree.
* `Line.containing_isLine`: the line of an offset lies between two terminators.
* `Source.locate_line`: what the location of an offset tells.
-/

namespace ModuleSystem

open Utf8 (glyphs bytesOf encodeRaw)

namespace Text

variable {t u : Text} {n c : Nat} {g : Glyph} {gs before after : List Glyph}

/-! ### Terminators by their bytes -/

/-- The texts that end a line. -/
def terminators : List Text := [[10], [13], [0xE2, 0x80, 0xA8], [0xE2, 0x80, 0xA9]]

/-- The offset stands between a carriage return and its line feed, which are one terminator together. -/
def insideBreak (t : Text) (n : Nat) : Bool := [13].isSuffixOf (t.take n) && [10].isPrefixOf (t.drop n)

/-- A line terminator ends at the offset. -/
def endsLineAt (t : Text) (n : Nat) : Bool := terminators.any (·.isSuffixOf (t.take n)) && !t.insideBreak n

/-- A line from one offset to another: nothing in it ends a line, and on each side there is either a terminator
or nothing. -/
structure IsLine (t : Text) (start stop : Nat) : Prop where
  start_le : start ≤ stop
  stop_le : stop ≤ t.length
  opens : start = 0 ∨ t.endsLineAt start = true
  closes : stop = t.length ∨ ∃ e ∈ terminators, e <+: t.drop stop
  unbroken : ∀ e ∈ terminators, ¬ e <:+: t.slice start stop

/-- The terminators are the characters that end a line, in bytes. -/
theorem mem_terminators {e : Text} : e ∈ terminators ↔ ∃ c, isLineEnd c = true ∧ e = encodeRaw c := by
  have hterminators : terminators = [10, 13, 0x2028, 0x2029].map encodeRaw := by decide
  rw [hterminators, List.mem_map]
  refine exists_congr fun c => and_congr ?_ eq_comm
  simp [isLineEnd, or_assoc]

/-! ### Terminators by their characters -/

/-- A terminator is a character wherever it stands. -/
theorem exists_glyphs_of_lineEnd (hc : isLineEnd c = true) (u v : Text) :
    ∃ gs, glyphs (u ++ (encodeRaw c ++ v)) = gs ++ ⟨c, encodeRaw c⟩ :: glyphs v ∧ bytesOf gs = u := by
  have hfirst : ∃ b bs, encodeRaw c = b :: bs ∧ Utf8.isContinuation b = false := by
    simp only [isLineEnd, Bool.or_eq_true, decide_eq_true_eq] at hc
    obtain ((rfl | rfl) | rfl) | rfl := hc <;> exact ⟨_, _, rfl, by decide⟩
  have hscalar : c ≤ 0x10FFFF ∧ Utf8.isSurrogate c = false := by
    simp only [isLineEnd, Bool.or_eq_true, decide_eq_true_eq] at hc
    obtain ((rfl | rfl) | rfl) | rfl := hc <;> decide
  obtain ⟨b, bs, hbytes, hb⟩ := hfirst
  obtain ⟨hglyphs, hvalid⟩ := Utf8.glyphs_encodeRaw hscalar.1 hscalar.2
  obtain ⟨gs, hgs, hu⟩ := Utf8.exists_glyphs_of_first hb u (bs ++ v)
  refine ⟨gs, ?_, hu⟩
  rw [← List.cons_append, ← hbytes] at hgs
  rw [hgs, Utf8.glyphs_append (by simp [Utf8.isValid, hglyphs, hvalid]), hglyphs, List.singleton_append]

/-- A character that ends a line is spelled in one way. -/
theorem bytes_of_lineEnd (hg : g ∈ glyphs t) (hc : isLineEnd g.code = true) : g.bytes = encodeRaw g.code := by
  refine (Utf8.bytes_of_valid (Utf8.glyphs_bytes_of_mem hg) ?_).2.2
  have hne : g.code ≠ Utf8.replacement := by
    intro h
    rw [h] at hc
    cases hc
  simp [Utf8.isInvalid, hne]

/-- A terminator is in a text by its bytes exactly if it is by its characters. -/
theorem encodeRaw_infix_iff (hc : isLineEnd c = true) : encodeRaw c <:+: t ↔ c ∈ t.codes := by
  constructor
  · rintro ⟨u, v, rfl⟩
    obtain ⟨gs, hgs, -⟩ := exists_glyphs_of_lineEnd hc u v
    rw [List.append_assoc, codes, hgs]
    simp
  · intro h
    obtain ⟨g, hg, rfl⟩ := List.mem_map.1 h
    obtain ⟨gs, hs, hgs⟩ := List.append_of_mem hg
    refine ⟨bytesOf gs, bytesOf hs, ?_⟩
    rw [← bytes_of_lineEnd hg hc, List.append_assoc, ← Utf8.bytesOf_cons, ← Utf8.bytesOf_append, ← hgs,
      Utf8.bytesOf_glyphs]

/-- A text ends with a terminator by its bytes exactly if it does by its characters. -/
theorem encodeRaw_suffix_iff (hc : isLineEnd c = true) : encodeRaw c <:+ t ↔ t.codes.getLast? = some c := by
  constructor
  · rintro ⟨u, rfl⟩
    obtain ⟨gs, hgs, -⟩ := exists_glyphs_of_lineEnd hc u []
    rw [List.append_nil] at hgs
    rw [codes, hgs]
    simp
  · intro h
    rw [codes, List.getLast?_map, Option.map_eq_some_iff] at h
    obtain ⟨g, hlast, rfl⟩ := h
    obtain ⟨gs, hgs⟩ := List.getLast?_eq_some_iff.1 hlast
    have hg : g ∈ glyphs t := by simp [hgs]
    refine ⟨bytesOf gs, ?_⟩
    rw [← bytes_of_lineEnd hg hc, ← Utf8.bytesOf_glyphs t, hgs]
    simp

/-- A text begins with a terminator by its bytes exactly if it does by its characters. -/
theorem encodeRaw_prefix_iff (hc : isLineEnd c = true) : encodeRaw c <+: t ↔ t.codes.head? = some c := by
  constructor
  · rintro ⟨v, rfl⟩
    obtain ⟨gs, hgs, hbytes⟩ := exists_glyphs_of_lineEnd hc [] v
    rw [List.nil_append] at hgs
    have hnil : gs = [] := by
      cases gs with
      | nil => rfl
      | cons g gs =>
          have hpos := Utf8.width_pos_of_mem (t := encodeRaw c ++ v) (g := g) (by simp [hgs])
          rw [Utf8.bytesOf_cons, List.append_eq_nil_iff] at hbytes
          simp [Glyph.width, hbytes.1] at hpos
    rw [codes, hgs, hnil]
    rfl
  · intro h
    rw [codes, List.head?_map, Option.map_eq_some_iff] at h
    obtain ⟨g, hfirst, rfl⟩ := h
    obtain ⟨gs, hgs⟩ := List.head?_eq_some_iff.1 hfirst
    have hg : g ∈ glyphs t := by simp [hgs]
    refine ⟨bytesOf gs, ?_⟩
    rw [← bytes_of_lineEnd hg hc, ← Utf8.bytesOf_cons, ← hgs, Utf8.bytesOf_glyphs]

/-! ### Offsets between characters -/

/-- Between two characters a text is cut into their bytes. -/
theorem take_of_glyphs (h : glyphs t = before ++ after) :
    t.take (bytesOf before).length = bytesOf before ∧ t.drop (bytesOf before).length = bytesOf after := by
  rw [← Utf8.bytesOf_glyphs t, h, Utf8.bytesOf_append]
  exact ⟨List.take_left, List.drop_left⟩

/-- Between two characters a text is cut into their code points. -/
theorem codes_of_glyphs (h : glyphs t = before ++ after) :
    codes (t.take (bytesOf before).length) = before.map (·.code) ∧
      codes (t.drop (bytesOf before).length) = after.map (·.code) := by
  obtain ⟨hbefore, hafter⟩ := Utf8.glyphs_of_append h
  rw [(take_of_glyphs h).1, (take_of_glyphs h).2, codes, codes, hbefore, hafter]
  exact ⟨rfl, rfl⟩

/-- Inside a break stands a carriage return before, and a line feed behind. -/
theorem insideBreak_iff (h : glyphs t = before ++ after) : t.insideBreak (bytesOf before).length = true ↔
    (before.map (·.code)).getLast? = some 13 ∧ (after.map (·.code)).head? = some 10 := by
  obtain ⟨hbefore, hafter⟩ := codes_of_glyphs h
  rw [insideBreak, Bool.and_eq_true, List.isSuffixOf_iff_suffix, List.isPrefixOf_iff_prefix, ← hbefore, ← hafter]
  exact and_congr (encodeRaw_suffix_iff (c := 13) rfl) (encodeRaw_prefix_iff (c := 10) rfl)

/-- A line ends behind a terminator, unless that is in the middle of a break. -/
theorem endsLineAt_iff (h : glyphs t = before ++ after) : t.endsLineAt (bytesOf before).length = true ↔
    (∃ c, isLineEnd c = true ∧ (before.map (·.code)).getLast? = some c) ∧
      ¬ t.insideBreak (bytesOf before).length = true := by
  rw [endsLineAt, Bool.and_eq_true, Bool.not_eq_true', Bool.not_eq_true, List.any_eq_true, ← (codes_of_glyphs h).1]
  refine and_congr_left fun _ => ⟨?_, ?_⟩
  · rintro ⟨e, he, hsuffix⟩
    obtain ⟨c, hc, rfl⟩ := mem_terminators.1 he
    exact ⟨c, hc, (encodeRaw_suffix_iff hc).1 (List.isSuffixOf_iff_suffix.1 hsuffix)⟩
  · rintro ⟨c, hc, hlast⟩
    exact ⟨_, mem_terminators.2 ⟨c, hc, rfl⟩, List.isSuffixOf_iff_suffix.2 ((encodeRaw_suffix_iff hc).2 hlast)⟩

/-- A terminator does not end inside a character. -/
theorem boundary_of_endsLineAt (h : t.endsLineAt n = true) (hn : n ≤ t.length) : t.Boundary n := by
  rw [endsLineAt, Bool.and_eq_true, List.any_eq_true] at h
  obtain ⟨⟨e, he, hsuffix⟩, -⟩ := h
  obtain ⟨c, hc, rfl⟩ := mem_terminators.1 he
  obtain ⟨u, hu⟩ := List.isSuffixOf_iff_suffix.1 hsuffix
  obtain ⟨gs, hgs, hbytes⟩ := exists_glyphs_of_lineEnd hc u (t.drop n)
  rw [← List.append_assoc, hu, List.take_append_drop] at hgs
  refine ⟨gs ++ [⟨c, encodeRaw c⟩], glyphs (t.drop n), by simp [hgs], ?_⟩
  have hlength := congrArg List.length hu
  rw [List.length_take_of_le hn] at hlength
  simp [hbytes, ← hlength]

/-- No offset between characters lies inside one. -/
theorem Boundary.le_or_le (hn : t.Boundary n) (h : glyphs t = before ++ g :: after) :
    n ≤ (bytesOf before).length ∨ (bytesOf before).length + g.width ≤ n := by
  obtain ⟨gs, hs, hgs, rfl⟩ := hn
  rw [h, List.append_cons] at hgs
  obtain hprefix | hprefix := List.prefix_or_prefix_of_prefix ⟨hs, hgs.symm⟩ ⟨after, rfl⟩
  · obtain rfl | hprefix := List.prefix_concat_iff.1 hprefix
    · exact .inr (by simp [Glyph.width])
    · obtain ⟨ks, rfl⟩ := hprefix
      exact .inl (by simp)
  · obtain ⟨ks, rfl⟩ := hprefix
    exact .inr (by simp [Glyph.width])

/-- A line by its characters. -/
theorem isLine_of_glyphs {above line below : List Glyph} (h : glyphs t = above ++ (line ++ below))
    (hopens : above = [] ∨ t.endsLineAt (bytesOf above).length = true)
    (hline : ∀ g ∈ line, isLineEnd g.code = false) (hbelow : ∀ g ∈ below.head?, isLineEnd g.code = true) :
    t.IsLine (bytesOf above).length (bytesOf (above ++ line)).length := by
  have hbytes : t = bytesOf above ++ (bytesOf line ++ bytesOf below) := by
    rw [← Utf8.bytesOf_append, ← Utf8.bytesOf_append, ← h, Utf8.bytesOf_glyphs]
  have h' : glyphs t = above ++ line ++ below := by rw [h, List.append_assoc]
  refine ⟨by simp, ?_, hopens.imp_left fun hnil => by rw [hnil]; rfl, ?_, fun e he => ?_⟩
  · rw [hbytes, ← List.append_assoc, ← Utf8.bytesOf_append, List.length_append]
    exact Nat.le_add_right ..
  · cases below with
    | nil => exact .inl (by rw [hbytes]; simp)
    | cons g below =>
        refine .inr ⟨_, mem_terminators.2 ⟨g.code, hbelow g rfl, rfl⟩, ?_⟩
        rw [encodeRaw_prefix_iff (hbelow g rfl), (codes_of_glyphs h').2]
        rfl
  · obtain ⟨c, hc, rfl⟩ := mem_terminators.1 he
    have hslice : t.slice (bytesOf above).length (bytesOf (above ++ line)).length = bytesOf line := by
      rw [hbytes, Utf8.bytesOf_append, slice_middle]
    have hglyphs := (Utf8.glyphs_of_append (Utf8.glyphs_of_append h).2).1
    rw [hslice, encodeRaw_infix_iff hc, codes, hglyphs]
    rintro hmem
    obtain ⟨g, hg, rfl⟩ := List.mem_map.1 hmem
    rw [hline g hg] at hc
    cases hc

end Text

namespace Line

open Text

variable {t : Text} {n : Nat} {g : Glyph} {gs before after : List Glyph}

/-! ### The number of a line -/

/-- A terminator ends a line, unless it completes a break. -/
theorem ended_cons (cr : Bool) (c : Nat) (cs : List Nat) : ended cr (c :: cs) =
    (if isLineEnd c = true ∧ ¬ (c = 10 ∧ cr = true) then 1 else 0) + ended (c == 13) cs := by
  have hbeq : (c == 13) = decide (c = 13) := rfl
  rw [hbeq]
  simp only [ended, isLineEnd]
  split_ifs <;> simp_all

/-- There are no more lines than characters. -/
theorem ended_le (cr : Bool) (cs : List Nat) : ended cr cs ≤ cs.length := by
  induction cs generalizing cr with
  | nil => exact Nat.le_refl 0
  | cons c cs ih =>
      have hrest := ih (c == 13)
      rw [ended_cons, List.length_cons]
      split <;> omega

/-- One more character ends a line, unless it is the second half of a terminator. -/
theorem ended_concat (cr : Bool) (cs : List Nat) (c : Nat) : ended cr (cs ++ [c]) = ended cr cs +
    if isLineEnd c = true ∧ ¬ (c = 10 ∧ (cs.getLast?.map (· == 13)).getD cr = true) then 1 else 0 := by
  induction cs generalizing cr with
  | nil => rw [List.nil_append, ended_cons, Nat.add_comm]; rfl
  | cons d cs ih =>
      have hlast : ((d :: cs).getLast?.map (· == 13)).getD cr = (cs.getLast?.map (· == 13)).getD (d == 13) := by
        rw [List.getLast?_cons]
        cases cs.getLast? <;> rfl
      rw [hlast, List.cons_append, ended_cons, ended_cons, ih, Nat.add_assoc]

/-- From one character to the next, a terminator can end only behind the character. -/
theorem count_endsLineAt (h : glyphs t = before ++ g :: after) :
    Nat.count (t.endsLineAt · = true) ((bytesOf before).length + g.width + 1) =
      Nat.count (t.endsLineAt · = true) ((bytesOf before).length + 1) +
        if t.endsLineAt ((bytesOf before).length + g.width) = true then 1 else 0 := by
  have hpos := Utf8.width_pos_of_mem (t := t) (g := g) (by simp [h])
  have hlength := congrArg (fun gs => (bytesOf gs).length) h
  simp only [Utf8.bytesOf_glyphs, Utf8.bytesOf_append, Utf8.bytesOf_cons, List.length_append] at hlength
  obtain ⟨w, hw⟩ : ∃ w, g.width = w + 1 := ⟨g.width - 1, by omega⟩
  have hinside : Nat.count (fun k => t.endsLineAt ((bytesOf before).length + 1 + k) = true) w = 0 := by
    refine Nat.count_of_forall_not fun k hk hends => ?_
    rw [Glyph.width] at hw
    have := (boundary_of_endsLineAt hends (by omega)).le_or_le h
    rw [Glyph.width] at this
    omega
  rw [Nat.count_succ, hw, ← Nat.add_assoc, Nat.add_right_comm, Nat.count_add, hinside, Nat.add_zero]

/-- A character that ends a line ends a terminator, or begins one that the next character ends. The second half of a
terminator ends no line of its own. -/
theorem ends_or_begins (h : glyphs t = before ++ g :: after) :
    ((if t.insideBreak (bytesOf before).length = true then 1 else 0) +
        if isLineEnd g.code = true ∧ ¬ (g.code = 10 ∧ (before.map (·.code)).getLast? = some 13) then 1 else 0) =
      (if t.endsLineAt ((bytesOf before).length + g.width) = true then 1 else 0) +
        if t.insideBreak ((bytesOf before).length + g.width) = true then 1 else 0 := by
  have h' : glyphs t = (before ++ [g]) ++ after := by rw [h, List.append_assoc, List.singleton_append]
  have hlength : (bytesOf (before ++ [g])).length = (bytesOf before).length + g.width := by simp [Glyph.width]
  have hinside := insideBreak_iff h
  have hinside' := insideBreak_iff h'
  have hends := endsLineAt_iff h'
  simp only [hlength, List.map_append, List.map_cons, List.map_nil, List.getLast?_concat, List.head?_cons,
    Option.some.injEq] at hinside hinside' hends
  -- the character is the second half of a terminator, or it starts afresh
  by_cases hfirst : t.insideBreak (bytesOf before).length = true
  · obtain ⟨hreturn, hfeed⟩ := hinside.1 hfirst
    have hdone : ¬ t.insideBreak ((bytesOf before).length + g.width) = true := by
      rw [hinside', hfeed]
      simp
    have hend : t.endsLineAt ((bytesOf before).length + g.width) = true := hends.2 ⟨⟨10, rfl, hfeed⟩, hdone⟩
    rw [if_pos hfirst, if_neg (by simp [hfeed, hreturn]), if_pos hend, if_neg hdone]
  · have hnew : isLineEnd g.code = true ∧ ¬ (g.code = 10 ∧ (before.map (·.code)).getLast? = some 13) ↔
        isLineEnd g.code = true :=
      and_iff_left fun h => hfirst (hinside.2 h.symm)
    have hend : t.endsLineAt ((bytesOf before).length + g.width) = true ↔
        isLineEnd g.code = true ∧ ¬ t.insideBreak ((bytesOf before).length + g.width) = true := by
      rw [hends]
      simp
    have hhalf : t.insideBreak ((bytesOf before).length + g.width) = true → isLineEnd g.code = true := by
      rw [hinside']
      rintro ⟨hreturn, -⟩
      rw [hreturn]
      rfl
    simp only [hnew, hend, if_neg hfirst]
    split_ifs <;> simp_all

/-- The lines that have ended are the terminators that have ended, and one more between a carriage return and its
line feed. -/
theorem ended_eq_count (h : glyphs t = before ++ after) : ended false (before.map (·.code)) =
    Nat.count (t.endsLineAt · = true) ((bytesOf before).length + 1) +
      if t.insideBreak (bytesOf before).length = true then 1 else 0 := by
  induction before using List.reverseRecOn generalizing after with
  | nil =>
      have hends := endsLineAt_iff h
      have hinside := insideBreak_iff h
      simp_all [ended, Nat.count_succ]
  | append_singleton before g ih =>
      rw [List.append_assoc, List.singleton_append] at h
      have hlength : (bytesOf (before ++ [g])).length = (bytesOf before).length + g.width := by simp [Glyph.width]
      have hlast : ((before.map (·.code)).getLast?.map (· == 13)).getD false = true ↔
          (before.map (·.code)).getLast? = some 13 := by
        cases (before.map (·.code)).getLast? <;> simp
      have hstep := ends_or_begins h
      rw [List.map_append, List.map_singleton, ended_concat, ih h, hlength, count_endsLineAt h]
      simp only [hlast]
      omega

/-! ### The ends of a line -/

/-- A character moves on, and may start a line. -/
theorem advance_cons {pos number start : Nat} {cr : Bool} (hg : g.Genuine) : advance pos number start cr (g :: gs) =
    advance (pos + g.width) (number + if isLineEnd g.code = true ∧ ¬ (g.code = 10 ∧ cr = true) then 1 else 0)
      (if isLineEnd g.code = true then pos + g.width else start) (g.code == 13) gs := by
  have hwidth := fun h => congrArg List.length (bytes_of_lineEnd hg.mem h)
  by_cases hend : isLineEnd g.code = true
  · replace hwidth : g.width = (encodeRaw g.code).length := hwidth hend
    rw [if_pos hend, hwidth]
    simp only [isLineEnd, Bool.or_eq_true, decide_eq_true_eq] at hend
    obtain ((hcode | hcode) | hcode) | hcode := hend <;> cases cr <;>
      simp [advance, hcode, hwidth, isLineEnd, encodeRaw]
  · rw [Bool.not_eq_true] at hend
    have hcode := hend
    simp only [isLineEnd, Bool.or_eq_false_iff, decide_eq_false_iff_not] at hcode
    simp [advance, hcode, hend, beq_eq_false_iff_ne.2 hcode.1.1.2]

/-- The last line of some characters starts behind the last terminator among them. -/
theorem advance_start (pos number start : Nat) (cr : Bool) (hgs : ∀ g ∈ gs, g.Genuine) :
    ∃ above current, gs = above ++ current ∧ (∀ g ∈ current, isLineEnd g.code = false) ∧
      (above = [] ∧ (advance pos number start cr gs).2 = start ∨
        (∃ g ∈ above.getLast?, isLineEnd g.code = true) ∧
          (advance pos number start cr gs).2 = pos + (bytesOf above).length) := by
  induction gs generalizing pos number start cr with
  | nil => exact ⟨[], [], rfl, List.forall_mem_nil _, .inl ⟨rfl, rfl⟩⟩
  | cons g gs ih =>
      obtain ⟨hg, hgs⟩ := List.forall_mem_cons.1 hgs
      rw [advance_cons hg]
      generalize number + _ = number'
      obtain ⟨above, current, rfl, hcurrent, hstart⟩ := ih (pos + g.width) number'
        (if isLineEnd g.code = true then pos + g.width else start) (g.code == 13) hgs
      obtain ⟨rfl, hstart⟩ | ⟨hlast, hstart⟩ := hstart
      · by_cases hend : isLineEnd g.code = true
        · refine ⟨[g], current, rfl, hcurrent, .inr ⟨⟨g, rfl, hend⟩, hstart.trans ((if_pos hend).trans ?_)⟩⟩
          simp [Glyph.width]
        · exact ⟨[], g :: current, rfl, List.forall_mem_cons.2 ⟨Bool.not_eq_true _ ▸ hend, hcurrent⟩,
            .inl ⟨rfl, hstart.trans (if_neg hend)⟩⟩
      · obtain ⟨k, hk, hend⟩ := hlast
        refine ⟨g :: above, current, rfl, hcurrent, .inr ⟨⟨k, ?_, hend⟩, hstart.trans ?_⟩⟩
        · rw [List.getLast?_cons, Option.mem_def.1 hk]
          rfl
        · simp [Glyph.width, Nat.add_assoc]

/-- A line goes on to the first terminator, or to the end. -/
theorem lengthToEnd_eq (gs : List Glyph) :
    ∃ current below, gs = current ++ below ∧ (∀ g ∈ current, isLineEnd g.code = false) ∧
      (∀ g ∈ below.head?, isLineEnd g.code = true) ∧ lengthToEnd gs = (bytesOf current).length := by
  induction gs with
  | nil => exact ⟨[], [], rfl, List.forall_mem_nil _, by simp, rfl⟩
  | cons g gs ih =>
      by_cases hg : isLineEnd g.code = true
      · exact ⟨[], g :: gs, rfl, List.forall_mem_nil _, by simpa using hg, by simp [lengthToEnd, hg]⟩
      · obtain ⟨current, below, rfl, hcurrent, hbelow, hlength⟩ := ih
        rw [Bool.not_eq_true] at hg
        refine ⟨g :: current, below, rfl, List.forall_mem_cons.2 ⟨hg, hcurrent⟩, hbelow, ?_⟩
        simp [lengthToEnd, hg, hlength, Glyph.width]

/-- Where the line of an offset starts, in the text before the offset. -/
theorem containing_start (t : Text) (n : Nat) :
    ∃ above current, glyphs (t.take n) = above ++ current ∧ (∀ g ∈ current, isLineEnd g.code = false) ∧
      (above = [] ∨ ∃ g ∈ above.getLast?, isLineEnd g.code = true) ∧
      (containing t n).start = (bytesOf above).length := by
  obtain ⟨above, current, hglyphs, hcurrent, hstart⟩ :=
    advance_start 0 0 0 false fun g => Glyph.genuine_of_mem (t := t.take n) (g := g)
  refine ⟨above, current, hglyphs, hcurrent, ?_⟩
  obtain ⟨rfl, hstart⟩ | ⟨hlast, hstart⟩ := hstart
  · exact ⟨.inl rfl, hstart⟩
  · exact ⟨.inr hlast, hstart.trans (Nat.zero_add _)⟩

/-- Where the line of an offset stops, in the text from the offset on. -/
theorem containing_stop (t : Text) (n : Nat) :
    ∃ current below, glyphs (t.drop n) = current ++ below ∧ (∀ g ∈ current, isLineEnd g.code = false) ∧
      (∀ g ∈ below.head?, isLineEnd g.code = true) ∧ (containing t n).stop = n + (bytesOf current).length := by
  obtain ⟨current, below, hglyphs, hcurrent, hbelow, hlength⟩ := lengthToEnd_eq (glyphs (t.drop n))
  exact ⟨current, below, hglyphs, hcurrent, hbelow, congrArg (n + ·) hlength⟩

/-- The line of an offset lies in the text, around the offset. -/
theorem containing_le {t : Text} (hn : n ≤ t.length) : (containing t n).start ≤ n ∧ n ≤ (containing t n).stop ∧
    (containing t n).stop ≤ t.length := by
  obtain ⟨above, current, habove, -, -, hstart⟩ := containing_start t n
  obtain ⟨current', below, hbelow, -, -, hstop⟩ := containing_stop t n
  have htake := congrArg (fun gs => (bytesOf gs).length) habove
  have hdrop := congrArg (fun gs => (bytesOf gs).length) hbelow
  simp only [Utf8.bytesOf_glyphs, Utf8.bytesOf_append, List.length_append, List.length_take, List.length_drop]
    at htake hdrop
  omega

/-- The line of an offset between two characters, and not within a terminator, lies between two terminators. -/
theorem containing_isLine (h : t.Boundary n) (hinside : ¬ t.insideBreak n = true) :
    t.IsLine (containing t n).start (containing t n).stop := by
  obtain ⟨before, after, hglyphs, rfl⟩ := h
  obtain ⟨above, current, habove, hcurrent, hlast, hstart⟩ := containing_start t (bytesOf before).length
  obtain ⟨current', below, hbelow, hcurrent', hfirst, hstop⟩ := containing_stop t (bytesOf before).length
  rw [(take_of_glyphs hglyphs).1, (Utf8.glyphs_of_append hglyphs).1] at habove
  rw [(take_of_glyphs hglyphs).2, (Utf8.glyphs_of_append hglyphs).2] at hbelow
  subst habove hbelow
  have hcut : glyphs t = above ++ (current ++ current' ++ below) := by simpa using hglyphs
  have hstop' : (bytesOf (above ++ (current ++ current'))).length =
      (bytesOf (above ++ current)).length + (bytesOf current').length := by
    simp [Nat.add_assoc]
  rw [hstart, hstop, ← hstop']
  refine isLine_of_glyphs hcut ?_ (fun g hg => (List.mem_append.1 hg).elim (hcurrent g) (hcurrent' g)) hfirst
  refine hlast.imp_right fun hlast => (endsLineAt_iff hcut).2 ⟨?_, fun hbreak => ?_⟩
  · obtain ⟨g, hg, hend⟩ := hlast
    exact ⟨g.code, hend, by rw [List.getLast?_map, Option.mem_def.1 hg]; rfl⟩
  · -- the first character behind a terminator is a line feed only if the line is empty
    obtain ⟨hreturn, hfeed⟩ := (insideBreak_iff hcut).1 hbreak
    cases current with
    | nil => exact hinside (by simpa using hbreak)
    | cons g current =>
        have hg : g.code = 10 := by simpa using hfeed
        have hnone := hcurrent g List.mem_cons_self
        rw [hg] at hnone
        cases hnone

end Line

namespace Source

variable {s : Source} {offset : Nat} {length : Int}

/-- The line that a location is about. -/
def lineOf (s : Source) (offset : Nat) : Line := Line.containing s.contents (min offset s.contents.length)

/-- The text of a line is that between its ends. -/
theorem locate_lineText : (s.locate offset length).lineText =
    s.contents.slice (s.lineOf offset).start (s.lineOf offset).stop :=
  rfl

/-- The column is the distance from the start of the line. -/
theorem locate_column : (s.lineOf offset).start + (s.locate offset length).column =
    (min offset s.contents.length : Nat) := by
  simp only [locate, lineOf]
  omega

/-- A location counts no more lines and no more columns than its source has bytes. -/
theorem locate_bounds (s : Source) (offset : Nat) (length : Int) :
    (1 ≤ (s.locate offset length).line ∧ (s.locate offset length).line ≤ s.contents.length + 1) ∧
      0 ≤ (s.locate offset length).column ∧ (s.locate offset length).column ≤ s.contents.length := by
  have hline : (s.locate offset length).line = (s.lineOf offset).number + 1 := rfl
  have hnumber : (s.lineOf offset).number ≤ s.contents.length := by
    rw [lineOf, Line.containing_number]
    refine (Line.ended_le _ _).trans ?_
    rw [Text.codes, List.length_map]
    exact (Utf8.length_glyphs_le _).trans (List.length_take_le' ..)
  obtain ⟨hstart, -, -⟩ := Line.containing_le (Nat.min_le_right offset s.contents.length)
  have hcolumn := @locate_column s offset length
  rw [lineOf] at hcolumn
  omega

/-- In any text and at any offset, the line of a location lies in the text, around the offset.  At an offset between
two characters that does not part a line feed from its carriage return, the number of the location is one more
than the number of terminators that end up to there; its text stands between two terminators and has none; and the
column leads from where the line starts to the offset. -/
theorem locate_line (s : Source) (offset : Nat) (length : Int) :
    (s.locate offset length).lineText = s.contents.slice (s.lineOf offset).start (s.lineOf offset).stop ∧
      (s.lineOf offset).start ≤ (s.lineOf offset).stop ∧ (s.lineOf offset).stop ≤ s.contents.length ∧
    (s.contents.Boundary offset → ¬ s.contents.insideBreak offset = true →
      (s.locate offset length).line = 1 + Nat.count (s.contents.endsLineAt · = true) (offset + 1) ∧
        s.contents.IsLine (s.lineOf offset).start (s.lineOf offset).stop ∧
        (s.lineOf offset).start ≤ offset ∧ offset ≤ (s.lineOf offset).stop ∧
        (s.lineOf offset).start + (s.locate offset length).column = offset) := by
  obtain ⟨hle, hle', hstop⟩ := Line.containing_le (Nat.min_le_right offset s.contents.length)
  refine ⟨locate_lineText, hle.trans hle', hstop, fun hboundary hinside => ?_⟩
  have hmin : min offset s.contents.length = offset := by
    obtain ⟨before, after, hglyphs, rfl⟩ := hboundary
    rw [← Utf8.bytesOf_glyphs s.contents, hglyphs]
    simp
  have hcolumn := @locate_column s offset length
  rw [lineOf, hmin] at hcolumn ⊢
  rw [hmin] at hle hle'
  refine ⟨?_, Line.containing_isLine hboundary hinside, hle, hle', hcolumn⟩
  obtain ⟨before, after, hglyphs, rfl⟩ := hboundary
  have hnumber := Line.ended_eq_count hglyphs
  rw [if_neg hinside, Nat.add_zero, ← (Text.codes_of_glyphs hglyphs).1, ← Line.containing_number] at hnumber
  rw [locate, hmin, hnumber]
  exact Int.add_comm ..

/-- Characters of one to four bytes, and terminators of each length. -/
def mixedLines : Source :=
  { contents := [0xC3, 0xA9, 13, 10, 97, 0xE2, 0x80, 0xA8, 98, 0xF0, 0x9F, 0x90, 0xB8, 99, 13] }

theorem locate_line_mixed : mixedLines.contents.Boundary 13 ∧ ¬ mixedLines.contents.insideBreak 13 = true ∧
    (mixedLines.locate 13 0).line = 1 + Nat.count (mixedLines.contents.endsLineAt · = true) 14 ∧
    mixedLines.contents.IsLine (mixedLines.lineOf 13).start (mixedLines.lineOf 13).stop ∧
    (mixedLines.lineOf 13).start + (mixedLines.locate 13 0).column = 13 := by
  have hboundary : mixedLines.contents.Boundary 13 :=
    ⟨(glyphs mixedLines.contents).take 7, (glyphs mixedLines.contents).drop 7, (List.take_append_drop ..).symm,
      by decide⟩
  have hinside : ¬ mixedLines.contents.insideBreak 13 = true := by decide
  obtain ⟨hline, hisLine, -, -, hcolumn⟩ := (locate_line mixedLines 13 0).2.2.2 hboundary hinside
  exact ⟨hboundary, hinside, hline, hisLine, hcolumn⟩

end Source

end ModuleSystem
