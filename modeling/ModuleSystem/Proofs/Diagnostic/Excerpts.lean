import ModuleSystem.Diagnostic.Render
import ModuleSystem.Proofs.Diagnostic.Locations

/-!
# Excerpts — the marker stands under the place

An excerpt is cut out of a line whose tabs are expanded, so that the bytes of the location, those of the expanded
line and those of the window around the column are three different counts.  No matter what the location says, every
cut is within its text.  Where the column is one of the line's own, the marker stands in the excerpt right under
what follows the column.

* `Text.slice?`, `Text.filled?`: cutting and repeating as partial operations.
* `expandTabs_take_prefix`: expanding tabs character by character, so that a beginning stays a beginning.
* `excerpt_of_le`, `excerpt_of_lt`: the two ways to show a line.
* `excerpt_points`: no cut fails, and the marker is where it should be.
-/

namespace ModuleSystem

namespace Text

variable {t : Text} {b : UInt8}

/-- The bytes from `start` up to `stop`, which have to be offsets of the text in this order. -/
def slice? (t : Text) (start stop : Int) : Option Text :=
  if 0 ≤ start ∧ start ≤ stop ∧ stop ≤ t.length then some (t.slice start.toNat stop.toNat) else none

/-- One byte, `n` times, which has to be no negative number. -/
def filled? (n : Int) (b : UInt8) : Option Text := if 0 ≤ n then some (filled n.toNat b) else none

/-- A part of a text between two offsets in order is there. -/
theorem slice?_of_le {start stop : Int} (h : 0 ≤ start) (h' : start ≤ stop) (h'' : stop ≤ t.length) :
    t.slice? start stop = some (t.slice start.toNat stop.toNat) :=
  if_pos ⟨h, h', h''⟩

/-- A text contains a byte that is one of its bytes. -/
theorem contains_singleton : t.contains [b] = true ↔ b ∈ t := by
  induction t with
  | nil => simp [contains, find?]
  | cons c t ih =>
      rw [contains, find?]
      by_cases h : b = c
      · simp [startsWith, h]
      · simpa [startsWith, h, contains] using ih

end Text

namespace Diagnostic

open Utf8 (glyphs bytesOf isValid)

variable {t : Text} {gs hs : List Glyph} {n stop count : Nat}

/-! ### Tabs -/

/-- What comes later does not change how a beginning is written. -/
theorem expandTabsFrom_prefix (stop count : Nat) (gs hs : List Glyph) :
    expandTabsFrom stop count gs <+: expandTabsFrom stop count (gs ++ hs) := by
  induction gs generalizing count with
  | nil => exact List.nil_prefix
  | cons g gs ih =>
      rw [List.cons_append, expandTabsFrom, expandTabsFrom]
      split
      · exact (List.prefix_append_right_inj _).2 (ih _)
      · exact (List.prefix_append_right_inj _).2 (ih _)

/-- A text without tabs is shown as it is. -/
theorem expandTabsFrom_eq (h : ∀ g ∈ gs, g.code ≠ 9 ∧ Utf8.encode g.code = g.bytes) :
    expandTabsFrom stop count gs = bytesOf gs := by
  induction gs generalizing count with
  | nil => rfl
  | cons g gs ih =>
      obtain ⟨hg, hgs⟩ := List.forall_mem_cons.1 h
      rw [expandTabsFrom, if_neg hg.1, hg.2, ih hgs, Utf8.bytesOf_cons]

/-- A valid text is expanded character by character, whether it has tabs or not. -/
theorem expandTabs_eq (h : isValid t) : expandTabs stop t = expandTabsFrom stop 0 (glyphs t) := by
  rw [expandTabs]
  split
  · rfl
  · rename_i htab
    rw [Text.contains_singleton] at htab
    rw [expandTabsFrom_eq, Utf8.bytesOf_glyphs]
    refine fun g hg => ⟨fun hcode => htab ?_, ?_⟩
    · rw [← Utf8.bytesOf_glyphs t]
      refine List.mem_flatMap.2 ⟨g, hg, ?_⟩
      rw [Utf8.bytes_of_ascii hg (by omega), hcode]
      exact List.mem_singleton_self _
    · obtain ⟨hle, hsurrogate, hbytes⟩ := Utf8.bytes_of_valid (Utf8.glyphs_bytes_of_mem hg) (Utf8.isValid_iff.1 h g hg)
      have hscalar : ¬ (Utf8.isSurrogate g.code || decide (0x10FFFF < g.code)) = true := by simp [hsurrogate, hle]
      rw [Utf8.encode, if_neg hscalar, hbytes]

/-- What stands before a column is expanded as it is in its line. -/
theorem expandTabs_take_prefix (h : isValid t) (hn : t.Boundary n) :
    expandTabs stop (t.take n) <+: expandTabs stop t := by
  obtain ⟨before, after, hglyphs, rfl⟩ := hn
  obtain ⟨hbefore, -⟩ := Utf8.glyphs_of_append hglyphs
  have hvalid : isValid (bytesOf before) := Utf8.isValid_iff.2 fun g hg =>
    Utf8.isValid_iff.1 h g (hglyphs ▸ List.mem_append_left _ (hbefore ▸ hg))
  rw [(Text.take_of_glyphs hglyphs).1, expandTabs_eq h, expandTabs_eq hvalid, hbefore, hglyphs]
  exact expandTabsFrom_prefix ..

/-! ### Windows -/

/-- The width at which a line is cut. -/
def shownWidth (width : Int) : Int := if width < 1 then 80 else width

/-- The number of bytes of the expanded line in front of the column. -/
def indentOf (loc : Location) : Nat :=
  (expandTabs tabStop (loc.lineText.take (clamp loc.column 0 loc.lineText.length).toNat)).length

/-- Where the window of a line that is too long begins. -/
def windowStart (loc : Location) (width : Int) : Int :=
  clamp (indentOf loc - width / 5) 0 ((expandTabs tabStop loc.lineText).length - width)

/-- Part of a line, with an ellipsis for what is missing in front. -/
def window (line : Text) (start width : Int) : Text :=
  let shown := (line.drop start.toNat).take width.toNat
  if start > 0 && shown.length > 3 then ("..." : Text) ++ shown.drop 3 else shown

/-- The marker under some bytes. -/
def markerOf (length : Int) : Text := if length > 1 then Text.filled length.toNat 126 else "^"

section

variable {loc : Location} {width : Int}

/-- At least one column is shown. -/
theorem one_le_shownWidth (width : Int) : 1 ≤ shownWidth width := by
  unfold shownWidth
  split <;> omega

/-- A line that fits into the width is shown as it is. -/
theorem excerpt_of_le (h : (expandTabs tabStop loc.lineText).length ≤ shownWidth width) :
    excerpt loc width = { line := expandTabs tabStop loc.lineText
                          indent := indentOf loc
                          marker := markerOf (clamp loc.length 0
                            ((expandTabs tabStop loc.lineText).length - indentOf loc)) } := by
  simp only [excerpt]
  rw [if_neg (by rw [shownWidth] at h; omega)]
  rfl

/-- Of a longer line, a window is shown. -/
theorem excerpt_of_lt (h : shownWidth width < (expandTabs tabStop loc.lineText).length) :
    excerpt loc width =
      { line := window (expandTabs tabStop loc.lineText) (windowStart loc (shownWidth width)) (shownWidth width)
        indent := (indentOf loc - windowStart loc (shownWidth width)).toNat
        marker := markerOf (clamp
          (clamp loc.length 0 ((expandTabs tabStop loc.lineText).length - indentOf loc)) 0
          ((window (expandTabs tabStop loc.lineText) (windowStart loc (shownWidth width)) (shownWidth width)).length -
            (indentOf loc - windowStart loc (shownWidth width)))) } := by
  simp only [excerpt]
  rw [if_pos (by rw [shownWidth] at h; omega)]
  rfl

/-- The window lies in its line, begins no later than the column and reaches up to it; it begins a fifth of its
width before the column, unless it would stick out of the line. -/
theorem windowStart_bounds (hw : 1 ≤ width) (h : width < (expandTabs tabStop loc.lineText).length) :
    0 ≤ windowStart loc width ∧ windowStart loc width + width ≤ (expandTabs tabStop loc.lineText).length ∧
      windowStart loc width ≤ indentOf loc ∧
      (0 < windowStart loc width → windowStart loc width ≤ indentOf loc - width / 5) ∧
      (windowStart loc width < indentOf loc - width / 5 →
        windowStart loc width + width = (expandTabs tabStop loc.lineText).length) := by
  unfold windowStart clamp
  omega

variable {line : Text} {start : Int}

/-- A window is as wide as it is asked to be. -/
theorem length_window (hstart : 0 ≤ start) (h : start + width ≤ line.length) :
    (window line start width).length = width.toNat := by
  have hshown : ((line.drop start.toNat).take width.toNat).length = width.toNat := by
    rw [List.length_take, List.length_drop]
    omega
  unfold window
  dsimp only
  split
  · rename_i hlong
    simp only [hshown, Bool.and_eq_true, decide_eq_true_eq] at hlong
    rw [List.length_append, List.length_drop, hshown, show (("..." : String) : Text).length = 3 from rfl]
    omega
  · exact hshown

/-- Behind the ellipsis the line is as it was. -/
theorem drop_window {k : Nat} (h : 0 < start → 3 ≤ k) :
    (window line start width).drop k = ((line.drop start.toNat).take width.toNat).drop k := by
  unfold window
  dsimp only
  split
  · rename_i hlong
    simp only [Bool.and_eq_true, decide_eq_true_eq] at hlong
    have hk := h hlong.1
    rw [List.drop_append, List.drop_of_length_le (by exact hk), List.nil_append, List.drop_drop,
      show (("..." : String) : Text).length = 3 from rfl, Nat.add_sub_cancel' hk]
  · rfl

/-- A marker has at least one column. -/
theorem length_markerOf (length : Int) : (markerOf length).length = max 1 length.toNat := by
  unfold markerOf
  split
  · rw [Text.filled, List.length_replicate]
    omega
  · change 1 = _
    omega

/-! ### Partial cuts -/

/-- A line and what stands under it, where nothing can be repeated less than zero times. -/
def underlined? (line : Text) (column length : Int) : Option (Text × Text × Text) := do
  let indent ← Text.filled? column 32
  let marker ← if length > 1 then Text.filled? length 126 else some ("^" : Text)
  return (line, indent, marker)

/-- Part of a line, with an ellipsis for what is missing in front. -/
def window? (line : Text) (start width : Int) : Option Text := do
  let shown ← line.slice? start (start + width)
  if start > 0 && shown.length > 3 then
    let rest ← shown.slice? 3 shown.length
    return ("..." : Text) ++ rest
  else return shown

/-- The excerpt as it is put together by cuts that fail when they are not within their text. -/
def excerpt? (loc : Location) (width : Int) : Option (Text × Text × Text) := do
  let full := expandTabs tabStop loc.lineText
  let before ← loc.lineText.slice? 0 (clamp loc.column 0 loc.lineText.length)
  let column : Int := (expandTabs tabStop before).length
  let length := clamp loc.length 0 (full.length - column)
  let width := if width < 1 then 80 else width
  if full.length > width then
    let start := clamp (column - width / 5) 0 (full.length - width)
    let shown ← window? full start width
    let column := column - start
    underlined? shown column (clamp length 0 (shown.length - column))
  else underlined? full column length

/-- A place at or behind the start of a line can be underlined. -/
theorem underlined?_eq {column length : Int} (h : 0 ≤ column) :
    underlined? line column length = some (line, Text.filled column.toNat 32, markerOf length) := by
  unfold underlined? markerOf
  rw [Text.filled?, if_pos h]
  split
  · rw [Text.filled?, if_pos (by omega)]
    rfl
  · rfl

/-- A window within a line can be cut out. -/
theorem window?_eq (hstart : 0 ≤ start) (hwidth : 0 ≤ width) (h : start + width ≤ line.length) :
    window? line start width = some (window line start width) := by
  have hshown : line.slice? start (start + width) = some ((line.drop start.toNat).take width.toNat) := by
    rw [Text.slice?_of_le hstart (by omega) h, Text.slice]
    congr 2
    omega
  unfold window? window
  rw [hshown, Option.bind_eq_bind, Option.bind_some]
  dsimp only
  split
  · rename_i hlong
    simp only [Bool.and_eq_true, decide_eq_true_eq] at hlong
    rw [Text.slice?_of_le (by omega) (by omega) (Int.le_refl _), Text.slice, List.take_of_length_le]
    · rfl
    · rw [List.length_drop]
      exact Nat.le_refl _
  · rfl

/-- No cut of an excerpt fails. -/
theorem excerpt?_eq (loc : Location) (width : Int) : excerpt? loc width =
    some ((excerpt loc width).line, Text.filled (excerpt loc width).indent 32, (excerpt loc width).marker) := by
  have hbefore : loc.lineText.slice? 0 (clamp loc.column 0 loc.lineText.length) =
      some (loc.lineText.take (clamp loc.column 0 loc.lineText.length).toNat) := by
    rw [Text.slice?_of_le (Int.le_refl 0) (by unfold clamp; omega) (by unfold clamp; omega)]
    rfl
  have hw := one_le_shownWidth width
  unfold excerpt?
  rw [hbefore, Option.bind_eq_bind, Option.bind_some]
  dsimp only
  rw [← shownWidth, ← indentOf, ← windowStart]
  split
  · rename_i h
    obtain ⟨hstart, hstop, hindent, -⟩ := windowStart_bounds hw h
    rw [excerpt_of_lt h, window?_eq hstart (by omega) hstop, Option.bind_some, underlined?_eq (by omega)]
  · rename_i h
    rw [excerpt_of_le (Int.not_lt.1 h), underlined?_eq (Int.natCast_nonneg _), Int.toNat_natCast]

/-! ### The marker -/

/-- Under a column of the line, and with an ellipsis that is no longer than the indent, the marker stands in the
excerpt, right under what follows the column. -/
theorem excerpt_marked (hw : 15 ≤ shownWidth width) (h : indentOf loc ≤ (expandTabs tabStop loc.lineText).length) :
    ((excerpt loc width).line.length : Int) =
        min (shownWidth width) (expandTabs tabStop loc.lineText).length ∧
      (excerpt loc width).indent ≤ (excerpt loc width).line.length ∧
      (1 < (excerpt loc width).marker.length →
        (excerpt loc width).indent + (excerpt loc width).marker.length ≤ (excerpt loc width).line.length) ∧
      (excerpt loc width).line.drop (excerpt loc width).indent <+:
        (expandTabs tabStop loc.lineText).drop (indentOf loc) := by
  by_cases hlong : shownWidth width < (expandTabs tabStop loc.lineText).length
  · obtain ⟨hstart, hstop, hindent, hfifth, hend⟩ := windowStart_bounds (by omega) hlong
    have hlength := length_window hstart hstop
    rw [excerpt_of_lt hlong]
    simp only [length_markerOf, hlength]
    refine ⟨by omega, by omega, fun hmarker => ?_, ?_⟩
    · simp only [clamp] at hmarker ⊢
      omega
    · rw [drop_window fun hpos => by have := hfifth hpos; omega, List.drop_take, List.drop_drop,
        show (windowStart loc (shownWidth width)).toNat + (indentOf loc - windowStart loc (shownWidth width)).toNat =
          indentOf loc by omega]
      exact List.take_prefix ..
  · rw [excerpt_of_le (Int.not_lt.1 hlong)]
    simp only [length_markerOf]
    refine ⟨by omega, h, fun hmarker => ?_, List.prefix_rfl⟩
    simp only [clamp] at hmarker ⊢
    omega

end

/-- The indent is as wide as what stands before the place. -/
theorem indentOf_eq {loc : Location} (hn : loc.lineText.Boundary n) (hcolumn : loc.column = n) :
    indentOf loc = (expandTabs tabStop (loc.lineText.take n)).length := by
  have hle : n ≤ loc.lineText.length := by
    obtain ⟨before, after, hglyphs, rfl⟩ := hn
    rw [← Utf8.bytesOf_glyphs loc.lineText, hglyphs]
    simp
  rw [indentOf, hcolumn, show (clamp n 0 loc.lineText.length).toNat = n by unfold clamp; omega]

/-- An excerpt is made without a cut outside of its text, whatever the location and the width are.  At a column
between two characters of a valid line, and unless the terminal is very narrow, the excerpt is as long as the width
or is the whole line; a marker of more than one byte ends with the excerpt or before; and what stands over the marker
is what follows the column in the expanded line. -/
theorem excerpt_points (loc : Location) (width : Int) :
    excerpt? loc width =
      some ((excerpt loc width).line, Text.filled (excerpt loc width).indent 32, (excerpt loc width).marker) ∧
    ∀ column : Nat, isValid loc.lineText → loc.column = column → loc.lineText.Boundary column →
      width < 1 ∨ 15 ≤ width →
      let full := expandTabs tabStop loc.lineText
      let before := expandTabs tabStop (loc.lineText.take column)
      let shown := excerpt loc width
      (shown.line.length : Int) = min (shownWidth width) full.length ∧
        (full.length ≤ shownWidth width → shown.line = full) ∧
        (1 < shown.marker.length → shown.indent + shown.marker.length ≤ shown.line.length) ∧
        before <+: full ∧ shown.indent ≤ shown.line.length ∧
        shown.line.drop shown.indent <+: full.drop before.length := by
  refine ⟨excerpt?_eq loc width, fun column hvalid hcolumn hboundary hwidth => ?_⟩
  dsimp only
  have hbefore : expandTabs tabStop (loc.lineText.take column) <+: expandTabs tabStop loc.lineText :=
    expandTabs_take_prefix hvalid hboundary
  have hindent := indentOf_eq hboundary hcolumn
  have hw : 15 ≤ shownWidth width := by
    unfold shownWidth
    split <;> omega
  obtain ⟨hlength, hinside, hmarker, hprefix⟩ := excerpt_marked hw (hindent ▸ hbefore.length_le)
  exact ⟨hlength, fun hle => by rw [excerpt_of_le hle], hmarker, hbefore, hinside, hindent ▸ hprefix⟩

/-- A line with tabs and with characters of two bytes, which is too long for fifteen columns. -/
def longLine : Location where
  file := "a"
  line := 1
  column := 16
  length := 40
  lineText := "\té\t= tüchtig + lang + breit"

theorem excerpt_points_long : isValid longLine.lineText ∧ longLine.lineText.Boundary 16 ∧
    (excerpt longLine 15).indent + (excerpt longLine 15).marker.length ≤ (excerpt longLine 15).line.length ∧
    (excerpt longLine 15).line.drop (excerpt longLine 15).indent <+:
      (expandTabs tabStop longLine.lineText).drop (expandTabs tabStop (longLine.lineText.take 16)).length := by
  have hvalid : isValid longLine.lineText = true := by decide
  have hboundary : longLine.lineText.Boundary 16 :=
    ⟨(glyphs longLine.lineText).take 14, (glyphs longLine.lineText).drop 14, (List.take_append_drop ..).symm,
      by decide⟩
  obtain ⟨-, -, hmarker, -, -, hprefix⟩ := (excerpt_points longLine 15).2 16 hvalid rfl hboundary (.inr (by decide))
  exact ⟨hvalid, hboundary, hmarker (by decide), hprefix⟩

end Diagnostic

end ModuleSystem
