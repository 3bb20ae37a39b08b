import Mathlib.Data.Nat.Bitwise
import ModuleSystem.Proofs.Lexer.Errors
import ModuleSystem.Proofs.Lexer.Literals

/-!
# The lexer — code points between braces

The digits between the braces of an escape make up a number of any size, and the lexer adds them up in 32 bits.  The
value is exact as long as the number is a code point, and still exact at the first digit that makes it too great, so
this digit is noticed; what the value becomes behind it is not looked at any more (`Tracks`).

* `readBraced_digits`: digits between braces, with any zeros in front, are read as their number or noticed.
* `Comes`: reading a literal comes to a place in it.
* `escape_read_or_refused`: in every string and template, an escape is read as the code units of its number if the
  number is a code point, and refused if and only if it is none.
-/

namespace ModuleSystem.Lexer

open Cursor Utf8 Json

variable {d : Dialect} {n pos count quote : Nat} {value : Int32} {outside : Bool} {digits : Text} {us : List UInt16}
  {g : Glyph} {gs rest body : List Glyph} {c : Cursor} {lx : Lexer} {r : Except Fault Lexer}

/-! ### Adding digits up -/

/-- One digit more, in 32 bits. -/
theorem ofNat_digit (n : Nat) {v : Nat} (hv : v < 16) :
    Int32.ofNat n * 16 ||| Int32.ofNat v = Int32.ofNat (n * 16 + v) := by
  have hor : n * 16 ||| v = n * 16 + v := by
    rw [Nat.mul_comm]
    exact (Nat.two_pow_add_eq_or_of_lt (i := 4) hv n).symm
  rw [← hor]
  change (UInt32.ofNat n * UInt32.ofNat 16 ||| UInt32.ofNat v).toInt32 = (UInt32.ofNat (n * 16 ||| v)).toInt32
  rw [UInt32.ofNat_or, UInt32.ofNat_mul]

/-- What is known while the digits of the number `n` are read: a code point is held exactly, and a greater number is
noticed. -/
structure Tracks (n : Nat) (value : Int32) (outside : Bool) : Prop where
  outside_iff : outside = true ↔ 0x10FFFF < n
  exact : n ≤ 0x10FFFF → value = Int32.ofNat n

theorem Tracks.zero : Tracks 0 0 false := ⟨by simp, fun _ => rfl⟩

/-- A digit more keeps the 32-bit value in step, up to the first one that leaves the code points. -/
theorem Tracks.digit (h : Tracks n value outside) {v : Nat} (hv : v < 16) :
    Tracks (n * 16 + v) (value * 16 ||| Int32.ofNat v)
      (outside || decide (maxCodePoint < value * 16 ||| Int32.ofNat v)) := by
  by_cases hn : n ≤ 0x10FFFF
  · -- the number is at most sixteen times too great, and 32 bits hold it
    have hvalue := Int32.toInt_ofNat_of_lt (n := n * 16 + v) (by omega)
    have houtside : outside = false := Bool.eq_false_iff.2 (mt h.outside_iff.1 (Nat.not_lt.2 hn))
    rw [h.exact hn, ofNat_digit n hv, houtside, Bool.false_or]
    refine ⟨?_, fun _ => rfl⟩
    rw [decide_eq_true_iff, Int32.lt_iff_toInt_lt, hvalue, show maxCodePoint.toInt = 0x10FFFF from rfl]
    omega
  · have houtside := h.outside_iff.2 (Nat.lt_of_not_le hn)
    rw [houtside, Bool.true_or]
    exact ⟨iff_of_true rfl (by omega), fun hle => absurd hle (by omega)⟩

/-- Digits between braces are read to the closing brace, whatever their number. -/
theorem readBraced_digits (h : ∀ b ∈ digits, CodePoint.isHex b.toNat = true) (htracks : Tracks n value outside)
    (count : Nat) (hcount : count + digits.length ≠ 0) (pos : Nat) (rest : List Glyph) :
    ∃ value' outside', Tracks (hexFrom n digits) value' outside' ∧
      readBraced pos value outside count (ascii digits ++ asciiGlyph 125 :: rest) =
        .ok (value', outside', count + digits.length) := by
  induction digits generalizing pos n value outside count with
  | nil =>
      refine ⟨value, outside, htracks, ?_⟩
      rw [ascii_nil, List.nil_append, readBraced, asciiGlyph_code,
        show CodePoint.hexValue? (125 : UInt8).toNat = none from rfl]
      dsimp only
      rw [if_pos (by simpa using hcount)]
      rfl
  | cons b digits ih =>
      obtain ⟨hb, hdigits⟩ := List.forall_mem_cons.1 h
      obtain ⟨v, hv⟩ := Option.isSome_iff_exists.1 hb
      obtain ⟨value', outside', htracks', hread⟩ :=
        ih hdigits (htracks.digit (Letter.hexValue?_lt hv)) (count + 1) (by omega) (pos + 1)
      refine ⟨value', outside', ?_, ?_⟩
      · rwa [Letter.hexFrom_cons, hv, Option.getD_some]
      · rw [ascii_cons, List.cons_append, readBraced, asciiGlyph_code, hv]
        dsimp only
        rw [hread, List.length_cons]
        congr 3
        omega

/-- The text of an escape with digits between braces. -/
def codePointEscape (digits : Text) : Text := 92 :: 117 :: 123 :: (digits ++ [125])

/-- What is read after the backslash of an escape. -/
theorem readEscape_braced (hne : digits ≠ []) (h : ∀ b ∈ digits, CodePoint.isHex b.toNat = true) (pos : Nat)
    (rest : List Glyph) :
    readEscape .script pos (ascii (117 :: 123 :: (digits ++ [125])) ++ rest) =
      if 0x10FFFF < hexFrom 0 digits then .error (.escapeOutOfRange ⟨pos, digits.length + 4⟩)
      else .ok (Utf16.units (hexFrom 0 digits), digits.length + 3) := by
  obtain ⟨value, outside, htracks, hread⟩ :=
    readBraced_digits h .zero 0 (by simpa using hne) (pos + 3) rest
  rw [← List.singleton_append, ← ascii_nil, ← ascii_cons] at hread
  rw [ascii_cons, ascii_cons, ascii_append, List.cons_append, List.cons_append, List.append_assoc, readEscape.eq_def]
  simp only [asciiGlyph_code]
  rw [show controlEscape? (117 : UInt8).toNat = none from rfl]
  simp only [show (117 : UInt8).toNat = 117 from rfl, show (123 : UInt8).toNat = 123 from rfl, Nat.reduceEqDiff,
    reduceIte, show (octalValue? 117).isSome = false from rfl, Bool.false_eq_true, scriptOnly, ok_bind, hread,
    Nat.zero_add, htracks.outside_iff]
  split
  · rfl
  · rename_i hn
    have hvalue := Int32.toInt_ofNat_of_lt (n := hexFrom 0 digits) (by omega)
    rw [htracks.exact (Nat.le_of_not_lt hn), Int32.toNatClampNeg, hvalue]
    rfl

/-- The code units of a code point stand for it. -/
theorem codePoints_units {n : Nat} (hn : n ≤ 0x10FFFF) : Utf16.codePoints (Utf16.units n) = [n] := by
  by_cases hshort : n ≤ 0xFFFF
  · rw [Utf16.units, if_pos hshort, Utf16.codePoints, Utf16.toNat_toUInt16 (by omega)]
  · have hsurrogate : isSurrogate n = false := by
      rw [isSurrogate, Bool.and_eq_false_iff, decide_eq_false_iff_not, decide_eq_false_iff_not]
      omega
    simpa using Utf16.codePoints_units (List.forall_mem_singleton.2 ⟨hn, hsurrogate⟩)

/-! ### Places in a literal -/

/-- Reading the characters of a literal from `pos` on comes to the characters `rest` at `stop`, and the code units `us`
have been read by then. -/
inductive Comes : Nat → List Glyph → List UInt16 → Nat → List Glyph → Prop where
  | here {pos : Nat} {gs : List Glyph} : Comes pos gs [] pos gs
  | unit {pos stop taken : Nat} {g : Glyph} {gs rest : List Glyph} {us us' : List UInt16}
      (hread : readUnit .script pos g gs = .ok (us, taken))
      (htail : Comes (pos + (bytesOf (g :: gs.take taken)).length) (gs.drop taken) us' stop rest) :
      Comes pos (g :: gs) (us ++ us') stop rest

/-- Characters that are already read are passed. -/
theorem decodeFrom_taken (taken pos : Nat) (gs : List Glyph) :
    decodeFrom d taken pos gs = decodeFrom d 0 (pos + (bytesOf (gs.take taken)).length) (gs.drop taken) := by
  induction taken generalizing pos gs with
  | zero => rfl
  | succ taken ih =>
      cases gs with
      | nil => rfl
      | cons g gs =>
          rw [decodeFrom, ih, List.take_succ_cons, List.drop_succ_cons, bytesOf_cons, List.length_append, Glyph.width,
            Nat.add_assoc]

/-- From a place in a literal on, the value goes on as at that place. -/
theorem Comes.decodeFrom {stop : Nat} (h : Comes pos gs us stop rest) :
    decodeFrom .script 0 pos gs = (decodeFrom .script 0 stop rest).map (us ++ ·) := by
  induction h with
  | here => rename_i pos gs; cases Lexer.decodeFrom .script 0 pos gs <;> rfl
  | @unit pos stop taken g gs rest us us' hread htail ih =>
      rw [bytesOf_cons, List.length_append, ← Nat.add_assoc] at ih
      rw [Lexer.decodeFrom, hread, ok_bind]
      dsimp only
      rw [decodeFrom_taken, Glyph.width, ih]
      cases Lexer.decodeFrom .script 0 stop rest with
      | error e => rfl
      | ok more => exact congrArg Except.ok (List.append_assoc us us' more).symm

/-- An escape where it stands in a literal. -/
theorem decodeFrom_escape (hne : digits ≠ []) (h : ∀ b ∈ digits, CodePoint.isHex b.toNat = true) (pos : Nat)
    (rest : List Glyph) :
    decodeFrom .script 0 pos (ascii (codePointEscape digits) ++ rest) =
      if 0x10FFFF < hexFrom 0 digits then .error (.escapeOutOfRange ⟨pos, digits.length + 4⟩)
      else (decodeFrom .script 0 (pos + digits.length + 4) rest).map (Utf16.units (hexFrom 0 digits) ++ ·) := by
  have hslash : ∀ gs, readUnit .script pos (asciiGlyph 92) gs = readEscape .script pos gs := fun _ => rfl
  have hunit := readEscape_braced hne h pos rest
  rw [codePointEscape, ascii_cons]
  split
  · rename_i hn
    rw [if_pos hn] at hunit
    rw [List.cons_append, decodeFrom, hslash, hunit]
    rfl
  · rename_i hn
    rw [if_neg hn] at hunit
    have hunits : ∀ g gs, asciiGlyph 92 :: ascii (117 :: 123 :: (digits ++ [125])) = g :: gs →
        readUnit .script pos g (gs ++ rest) = .ok (Utf16.units (hexFrom 0 digits), gs.length) := by
      rintro g gs hg
      obtain ⟨rfl, rfl⟩ := List.cons_eq_cons.1 hg
      rw [hslash, hunit]
      simp [ascii]
    have hlength : (bytesOf (asciiGlyph 92 :: ascii (117 :: 123 :: (digits ++ [125])))).length = digits.length + 4 := by
      rw [← ascii_cons, bytesOf_ascii]
      simp
    rw [Letter.decodeFrom_append (List.cons_ne_nil _ _) hunits, hlength, ← Nat.add_assoc]
    cases decodeFrom .script 0 (pos + digits.length + 4) rest <;> rfl

/-! ### Where a fault is -/

/-- Digits in braces fail where they stand, or behind. -/
theorem readBraced_behind : Fails (readBraced pos value outside count gs) fun f => pos ≤ f.range.start := by
  fun_induction readBraced pos value outside count gs with
  | case1 | case4 => exact .error (le_refl _)
  | case2 _ _ _ _ _ _ _ _ _ ih => exact ih.mono fun _ hf => Nat.le_of_succ_le hf
  | case3 => exact .ok

/-- Digits of a fixed number fail where they stand, or behind. -/
theorem readFixed_behind : Fails (readFixed pos n count gs) fun f => pos ≤ f.range.start := by
  fun_induction readFixed pos n count gs with
  | case1 => exact .ok
  | case2 | case4 => exact .error (le_refl _)
  | case3 _ _ _ _ _ _ _ ih => exact ih.mono fun _ hf => Nat.le_of_succ_le hf

/-- What JSON does not have fails where it stands. -/
theorem scriptOnly_behind : Fails (scriptOnly d pos) fun f => pos ≤ f.range.start := by
  cases d with
  | script => exact .ok
  | json => exact .error (le_refl _)

/-- An escape fails where it stands, or behind. -/
theorem readEscape_behind : Fails (readEscape d pos gs) fun f => pos ≤ f.range.start := by
  have hlater : ∀ k, ∀ f : Fault, pos + k ≤ f.range.start → pos ≤ f.range.start := fun k f hf =>
    (Nat.le_add_right pos k).trans hf
  fun_cases readEscape d pos gs with
  | case1 | case2 | case11 => exact .ok
  | case8 => exact .error (Nat.le_add_right _ _)
  | case5 =>
      exact (scriptOnly_behind.mono (hlater 1)).bind fun _ _ => (readFixed_behind.mono (hlater 2)).bind fun _ _ => .ok
  | case6 =>
      refine (scriptOnly_behind.mono (hlater 2)).bind fun _ _ => (readBraced_behind.mono (hlater 3)).bind fun r _ => ?_
      dsimp only
      split
      · exact .error (le_refl _)
      · exact .ok
  | case7 => exact (readFixed_behind.mono (hlater 2)).bind fun _ _ => .ok
  | _ => exact (scriptOnly_behind.mono (hlater 1)).bind fun _ _ => .ok

/-- What is behind a place in a literal is not objected to before it. -/
theorem decodeFrom_behind {skip : Nat} : Fails (decodeFrom d skip pos gs) fun f => pos ≤ f.range.start := by
  fun_induction decodeFrom d skip pos gs with
  | case1 => exact .ok
  | case2 _ _ _ _ ih => exact ih.mono fun _ hf => (Nat.le_add_right _ _).trans hf
  | case3 pos g gs ih =>
      have hunit : Fails (readUnit d pos g gs) fun f => pos ≤ f.range.start := by
        unfold readUnit
        split
        · exact readEscape_behind
        · split <;> exact .ok
      exact hunit.bind fun r _ => ((ih r.2).mono fun _ hf => (Nat.le_add_right _ _).trans hf).bind fun _ _ => .ok

/-! ### Strings and templates -/

/-- The text that goes on at a cursor, of the given quote, has the characters `body` before its closing. -/
def Encloses (d : Dialect) (quote : Nat) (c : Cursor) (body : List Glyph) : Prop :=
  ∃ closing stop, quotedEnd d quote c.pos c.rest = .ok (closing, stop) ∧
    body = Glyph.takeBytes (stop.pos - closing.width - c.pos) c.rest

/-- With the outcome `r`, the lexer reads a string or template, or a part of a template, that opens with the given
quote and goes on at the cursor. -/
inductive Opens (lx : Lexer) : Nat → Cursor → Except Fault Lexer → Prop where
  /-- The next token begins with a quote. -/
  | next {place : Cursor} {newline : Bool} {g : Glyph} {gs : List Glyph} (hkind : lx.token.kind ≠ .invalid)
      (hgap : skipGap lx.dialect (lx.token.stop = 0) lx.cursor = .ok (place, newline)) (hrest : place.rest = g :: gs)
      (hquote : g.code = 34 ∨ g.code = 39 ∨ g.code = 96) : Opens lx g.code ⟨place.pos + g.width, gs⟩ lx.next
  /-- A template goes on behind a closing brace. -/
  | template (hkind : lx.token.kind = .closeBrace) : Opens lx 96 lx.cursor lx.asTemplate

/-- The first token of a source is read like any other. -/
theorem exists_opens_start {s : Source} {place : Cursor} {newline : Bool}
    (hgap : skipGap d true ⟨0, glyphs s.contents⟩ = .ok (place, newline)) (hrest : place.rest = g :: gs)
    (hquote : g.code = 34 ∨ g.code = 39 ∨ g.code = 96) :
    ∃ lx : Lexer, lx.dialect = d ∧ Opens lx g.code ⟨place.pos + g.width, gs⟩ (start s d) :=
  ⟨_, rfl, .next (by simp) hgap hrest hquote⟩

/-- At a quote a string or a template is read. -/
theorem scanLexeme_quoted (hquote : g.code = 34 ∨ g.code = 39 ∨ g.code = 96) (pos : Nat) (gs : List Glyph) :
    scanLexeme d ⟨pos, g :: gs⟩ = (scanQuoted d g.code false pos ⟨pos + g.width, gs⟩).map fun q =>
      { kind := q.1, units := q.2.1, cursor := q.2.2 } := by
  have hsign : g.code ≠ 35 := by omega
  have hopens : (g.code = 34 || g.code = 39 || g.code = 96) = true := by simpa [or_assoc] using hquote
  rw [scanLexeme.eq_def]
  dsimp only
  rw [if_neg hsign, if_pos hopens]
  cases scanQuoted d g.code false pos ⟨pos + g.width, gs⟩ <;> rfl

/-- A string or template has the code units that the characters before its closing stand for. -/
theorem Opens.units (h : Opens lx quote c r) (hd : lx.dialect = .script) (hbody : Encloses .script quote c body) :
    r.map (·.token.units) = decodeUnits .script c.pos body := by
  obtain ⟨closing, stop, hend, rfl⟩ := hbody
  have hscan : ∀ resumed start, scanQuoted lx.dialect quote resumed start c =
      (decodeUnits .script c.pos (Glyph.takeBytes (stop.pos - closing.width - c.pos) c.rest)).map
        fun us => (quotedKind quote resumed closing, us, stop) := by
    intro resumed start
    rw [hd, scanQuoted, hend, ok_bind]
    dsimp only
    cases decodeUnits .script c.pos (Glyph.takeBytes (stop.pos - closing.width - c.pos) c.rest) <;> rfl
  cases h with
  | @next place newline g gs hkind hgap hrest hquote =>
      obtain ⟨start, _⟩ := place
      obtain rfl := hrest
      unfold Lexer.next
      extract_lets prev
      rw [if_neg hkind, hgap, ok_bind]
      dsimp only
      rw [scanLexeme_quoted hquote, hscan]
      cases decodeUnits .script (start + g.width) _ <;> rfl
  | template hkind =>
      rw [asTemplate]
      dsimp only
      rw [if_neg (not_not.2 hkind), hscan]
      cases decodeUnits .script lx.cursor.pos _ <;> rfl

theorem map_eq_error_iff {ε α β : Type} {x : Except ε α} {f : α → β} {e : ε} : x.map f = .error e ↔ x = .error e := by
  cases x <;> simp [Except.map]

/-- **Escapes with digits between braces**, in every string and template.  An escape that reading comes to is read as
the code units of the number that its digits denote, with any zeros in front, if the number is a code point; it is
refused, with its place, if and only if the number is none. -/
theorem escape_read_or_refused (hd : lx.dialect = .script) (hopens : Opens lx quote c r)
    (hbody : Encloses .script quote c body)
    (hcomes : Comes c.pos body us pos (ascii (codePointEscape digits) ++ rest)) (hne : digits ≠ [])
    (hhex : ∀ b ∈ digits, CodePoint.isHex b.toNat = true) :
    (hexFrom 0 digits ≤ 0x10FFFF →
      Utf16.codePoints (Utf16.units (hexFrom 0 digits)) = [hexFrom 0 digits] ∧
      r.map (·.token.units) = (decodeUnits .script (pos + digits.length + 4) rest).map
        (us ++ Utf16.units (hexFrom 0 digits) ++ ·)) ∧
    (r = .error (.escapeOutOfRange ⟨pos, digits.length + 4⟩) ↔ 0x10FFFF < hexFrom 0 digits) ∧
    ((Fault.escapeOutOfRange ⟨pos, digits.length + 4⟩).diagnostic lx.source).text =
      Text.ofString "Unicode escape sequence is out of range" := by
  have hunits := hopens.units hd hbody
  rw [decodeUnits, hcomes.decodeFrom, decodeFrom_escape hne hhex] at hunits
  by_cases hn : 0x10FFFF < hexFrom 0 digits
  · rw [if_pos hn] at hunits
    exact ⟨fun hle => absurd hn (Nat.not_lt.2 hle), iff_of_true (map_eq_error_iff.1 hunits) hn, rfl⟩
  · rw [if_neg hn] at hunits
    refine ⟨fun hle => ⟨codePoints_units hle, ?_⟩, iff_of_false (fun hr => ?_) hn, rfl⟩
    · rw [hunits, decodeUnits]
      cases decodeFrom .script 0 (pos + digits.length + 4) rest with
      | error e => rfl
      | ok more => exact congrArg Except.ok (List.append_assoc us _ more).symm
    · -- what is behind the escape is not refused at the place of the escape
      rw [hr] at hunits
      have hrest := map_eq_error_iff.1 (map_eq_error_iff.1 hunits.symm)
      have hbehind : pos + digits.length + 4 ≤ pos := decodeFrom_behind _ hrest
      omega

/-- A template with a number that is 65 in 32 bits, and a string with the greatest code point behind a letter, with
zeros in front. -/
theorem escape_read_or_refused_wrapped :
    start { contents := "`\\u\x7b100000041\x7d`" } .script = .error (.escapeOutOfRange ⟨1, 13⟩) ∧
      (start { contents := "'a\\u\x7b000000000010FFFF\x7d'" } .script).map (·.token.units) =
        .ok [97, 0xDBFF, 0xDFFF] := by
  constructor
  · have hgap : skipGap .script true ⟨0, glyphs "`\\u\x7b100000041\x7d`"⟩ =
        .ok (⟨0, asciiGlyph 96 :: (ascii (codePointEscape "100000041") ++ [asciiGlyph 96])⟩, true) := by decide +kernel
    obtain ⟨lx, hd, hopens⟩ := exists_opens_start (s := { contents := "`\\u\x7b100000041\x7d`" }) hgap rfl (by decide)
    have hbody : Encloses .script 96 ⟨1, ascii (codePointEscape "100000041") ++ [asciiGlyph 96]⟩
        (ascii (codePointEscape "100000041") ++ []) := ⟨.quote, ⟨15, []⟩, by decide +kernel, by decide +kernel⟩
    exact (escape_read_or_refused hd hopens hbody .here (by decide) (by decide)).2.1.2 (by decide)
  · have hgap : skipGap .script true ⟨0, glyphs "'a\\u\x7b000000000010FFFF\x7d'"⟩ =
        .ok (⟨0, asciiGlyph 39 :: asciiGlyph 97 :: (ascii (codePointEscape "000000000010FFFF") ++ [asciiGlyph 39])⟩,
          true) := by
      decide +kernel
    obtain ⟨lx, hd, hopens⟩ :=
      exists_opens_start (s := { contents := "'a\\u\x7b000000000010FFFF\x7d'" }) hgap rfl (by decide)
    have hbody : Encloses .script 39
        ⟨1, asciiGlyph 97 :: (ascii (codePointEscape "000000000010FFFF") ++ [asciiGlyph 39])⟩
        (asciiGlyph 97 :: (ascii (codePointEscape "000000000010FFFF") ++ [])) :=
      ⟨.quote, ⟨23, []⟩, by decide +kernel, by decide +kernel⟩
    have hcomes : Comes 1 (asciiGlyph 97 :: (ascii (codePointEscape "000000000010FFFF") ++ [])) ([97] ++ []) 2
        (ascii (codePointEscape "000000000010FFFF") ++ []) := .unit (show _ = Except.ok ([97], 0) from rfl) .here
    exact ((escape_read_or_refused hd hopens hbody hcomes (by decide) (by decide)).1 (by decide)).2

end ModuleSystem.Lexer
