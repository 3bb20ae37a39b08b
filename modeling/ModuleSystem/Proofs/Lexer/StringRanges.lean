import ModuleSystem.Proofs.Lexer.Tiles
import ModuleSystem.Proofs.Text.Quoting

/-!
# The lexer — where a string literal ends

The range of a string literal is found again from its start alone: `Source.rangeOfString` looks for the
closing quote byte by byte and passes one byte after each backslash, while the lexer reads characters, and
passes a line break after a backslash as a whole.  Both stop at the same quote, because no byte of a character
outside ASCII is a quote or a backslash.

* `Lexer.literalLength_of_quotedEnd`: the two scans end at the same place.
* `Lexer.Met.fresh_of_string`, `Lexer.Produces.exists_fresh`: strings are read where they stand.
* `Source.string_ranges`: the range of every string token is found from its start.
-/

namespace ModuleSystem

open Utf8 (bytesOf)

namespace Source

variable {b quote : UInt8} {t : Text} {n : Nat}

/-! ### The scan by bytes -/

theorem literalLength_quote : literalLength quote n (quote :: t) = n + 1 := by
  cases t <;> simp [literalLength]

/-- A backslash takes the byte behind it along. -/
theorem literalLength_escape (hquote : quote ≠ 92) :
    literalLength quote n (92 :: b :: t) = literalLength quote (n + 2) t := by
  simp [literalLength, Ne.symm hquote]

/-- Any other byte is passed. -/
theorem literalLength_plain (hquote : b ≠ quote) (hslash : b ≠ 92) :
    literalLength quote n (b :: t) = literalLength quote (n + 1) t := by
  cases t <;> simp [literalLength, hquote, hslash]

/-- Bytes that are neither quotes nor backslashes are passed. -/
theorem literalLength_append {u : Text} (h : ∀ b ∈ u, b ≠ quote ∧ b ≠ 92) :
    literalLength quote n (u ++ t) = literalLength quote (n + u.length) t := by
  induction u generalizing n with
  | nil => rfl
  | cons b u ih =>
      obtain ⟨hb, hu⟩ := List.forall_mem_cons.1 h
      rw [List.cons_append, literalLength_plain hb.1 hb.2, ih hu, List.length_cons, Nat.add_assoc, Nat.add_comm 1]

end Source

namespace Lexer

open Source Cursor

variable {d : Dialect} {pos : Nat} {gs : List Glyph} {quote : UInt8} {g : Glyph}

/-! ### The scan by characters -/

/-- The bytes of longer characters are neither quotes nor backslashes. -/
theorem ne_of_le (hquote : quote = 34 ∨ quote = 39) {b : UInt8} (hb : 128 ≤ b.toNat) : b ≠ quote ∧ b ≠ 92 := by
  constructor
  · rintro rfl
    obtain rfl | rfl := hquote <;> simp at hb
  · rintro rfl
    simp at hb

/-- A character that is neither a quote nor a backslash is passed. -/
theorem literalLength_glyph (hquote : quote = 34 ∨ quote = 39) (hg : g.Genuine) (hne : g.code ≠ quote.toNat)
    (hslash : g.code ≠ 92) (n : Nat) :
    literalLength quote n (bytesOf (g :: gs)) = literalLength quote (n + g.width) (bytesOf gs) := by
  rw [Utf8.bytesOf_cons]
  refine literalLength_append fun b hb => ?_
  by_cases hcode : g.code < 128
  · rw [hg.bytes hcode, List.mem_singleton] at hb
    have hvalue : b.toNat = g.code := by rw [hb, Utf8.toNat_toUInt8 (by omega)]
    exact ⟨by rintro rfl; exact hne hvalue.symm, by rintro rfl; exact hslash hvalue.symm⟩
  · exact ne_of_le hquote (Utf8.le_of_mem_bytes hg.mem (by omega) b hb)

/-- A backslash is passed together with the character after it, although the scan by bytes takes only the first
byte of that character. -/
theorem literalLength_escaped (hquote : quote = 34 ∨ quote = 39) {h : Glyph} (hg : g.Genuine) (hh : h.Genuine)
    (hslash : g.code = 92) (n : Nat) :
    literalLength quote n (bytesOf (g :: h :: gs)) = literalLength quote (n + (1 + h.width)) (bytesOf gs) := by
  have hne : quote ≠ 92 := by obtain rfl | rfl := hquote <;> decide
  obtain ⟨b, bs, hbytes⟩ := List.exists_cons_of_ne_nil (List.length_pos_iff.1 hh.width_pos)
  have htail := Utf8.isContinuation_of_mem_tail hh.mem
  rw [hbytes, List.tail_cons] at htail
  rw [Utf8.bytesOf_cons, Utf8.bytesOf_cons, hg.bytes (by omega), hslash, hbytes, Glyph.width, hbytes]
  refine (literalLength_escape hne).trans ?_
  refine (literalLength_append fun c hc => ne_of_le hquote (Utf8.le_of_isContinuation (htail c hc))).trans ?_
  rw [List.length_cons]
  congr 1
  omega

/-- The scan by bytes that goes on with the characters `gs` at `pos` ends where the cursor `c` is. -/
def EndsAt (quote : UInt8) (pos : Nat) (gs : List Glyph) (c : Cursor) : Prop :=
  ∃ k, c.pos = pos + k ∧ ∀ n, literalLength quote n (bytesOf gs) = n + k

/-- Bytes in front that are passed. -/
theorem EndsAt.cons {k : Nat} {hs : List Glyph} {c : Cursor} (h : EndsAt quote (pos + k) gs c)
    (hpass : ∀ n, literalLength quote n (bytesOf hs) = literalLength quote (n + k) (bytesOf gs)) :
    EndsAt quote pos hs c := by
  obtain ⟨m, hpos, hlength⟩ := h
  refine ⟨k + m, by omega, fun n => ?_⟩
  rw [hpass, hlength, Nat.add_assoc]

/-- Both scans end at the same place. -/
theorem literalLength_of_quotedEnd (hquote : quote = 34 ∨ quote = 39) (hc : Genuine ⟨pos, gs⟩) {q : Nat}
    (hq : q = quote.toNat) : Ensures (quotedEnd d q pos gs) fun r => EndsAt quote pos gs r.2 := by
  have htemplate : q ≠ 96 := by obtain rfl | rfl := hquote <;> simp [hq]
  fun_induction quotedEnd d q pos gs with
  | case1 | case2 | case8 | case13 => exact .error
  -- a carriage return and the line feed after it are passed together by one scan, and one by one by the other
  | case3 pos g hg h hh k ks hk ih =>
      simp only [Bool.and_eq_true, decide_eq_true_eq] at hh
      have hc' : Genuine ⟨pos, h :: k :: ks⟩ := hc.tail
      have hc'' : Genuine ⟨pos, k :: ks⟩ := hc'.tail
      refine (ih hc''.tail).mono fun r hr => hr.cons fun n => ?_
      have hfeed : k.code ≠ quote.toNat := by obtain rfl | rfl := hquote <;> simp [hk]
      rw [literalLength_escaped hquote hc.head hc'.head hg, literalLength_glyph hquote hc''.head hfeed (by omega),
        hc'.head.width (by omega), hc''.head.width (by omega)]
  | case4 pos g hg h hh k ks _ ih =>
      simp only [Bool.and_eq_true, decide_eq_true_eq] at hh
      have hc' : Genuine ⟨pos, h :: k :: ks⟩ := hc.tail
      refine (ih hc'.tail).mono fun r hr => hr.cons fun n => ?_
      rw [literalLength_escaped hquote hc.head hc'.head hg, hc'.head.width (by omega)]
  | case5 pos g hg h hh ih =>
      simp only [Bool.and_eq_true, decide_eq_true_eq] at hh
      have hc' : Genuine ⟨pos, [h]⟩ := hc.tail
      refine (ih hc'.tail).mono fun r hr => hr.cons fun n => ?_
      rw [literalLength_escaped hquote hc.head hc'.head hg, hc'.head.width (by omega)]
  | case6 pos g hg h hs _ ih =>
      have hc' : Genuine ⟨pos, h :: hs⟩ := hc.tail
      refine (ih hc'.tail).mono fun r hr => ?_
      rw [Nat.add_assoc] at hr
      exact hr.cons fun n => literalLength_escaped hquote hc.head hc'.head hg n
  | case7 _ _ _ _ _ hq' => exact absurd hq' htemplate
  | case9 _ _ _ _ hg | case10 _ _ _ _ hg | case11 _ _ _ _ hg =>
      simp only [Bool.and_eq_true, decide_eq_true_eq] at hg
      exact absurd hg.2 htemplate
  | case12 pos g gs _ _ _ hg =>
      have hcode : g.code < 128 := by obtain rfl | rfl := hquote <;> simp_all
      refine .ok ⟨1, rfl, fun n => ?_⟩
      rw [Utf8.bytesOf_cons, hc.head.bytes hcode, hg, hq, Utf8.toUInt8_eq rfl]
      exact literalLength_quote
  | case14 pos g gs hslash _ _ hg _ ih =>
      exact (ih hc.tail).mono fun r hr => hr.cons fun n =>
        literalLength_glyph hquote hc.head (hq ▸ hg) hslash n

/-! ### String tokens -/

variable {s : Source} {lx lx' : Lexer} {before gap word : List Glyph} {ts : List Token} {f : Option Fault}
  {r : Except Fault Lexer}

/-- A string opens with a quote, and it was read up to where the text behind the quote ends. -/
theorem Fresh.exists_quotedEnd (h : lx.Fresh before gap word) (hkind : lx.token.kind = .string) :
    ∃ g gs closing, word ++ lx.cursor.rest = g :: gs ∧ (g.code = 34 ∨ g.code = 39) ∧
      quotedEnd lx.dialect g.code (lx.token.start + g.width) gs = .ok (closing, lx.cursor) := by
  obtain ⟨g, gs, hrest, hquote, scanned⟩ := h.origin.scanQuoted_of_kind hkind
  obtain ⟨closing, closed, -⟩ := scanQuoted_ok _ scanned
  exact ⟨g, gs, closing, hrest, hquote, closed⟩

/-- The range of a string that has just been read. -/
theorem Fresh.rangeOfString (h : lx.Fresh before gap word) (hkind : lx.token.kind = .string) :
    lx.source.rangeOfString lx.token.start = lx.token.range := by
  obtain ⟨g, gs, closing, hrest, hcode, hend⟩ := h.exists_quotedEnd hkind
  have hgenuine : Genuine ⟨lx.token.start, g :: gs⟩ := fun k hk => Glyph.genuine_of_mem (h.mem_glyphs (hrest ▸ hk))
  have hascii : g.code < 128 := by omega
  have hopen : g.code.toUInt8 = 34 ∨ g.code.toUInt8 = 39 := by
    obtain hcode | hcode := hcode <;> simp [hcode]
  obtain ⟨k, hpos, hlength⟩ :=
    literalLength_of_quotedEnd hopen hgenuine.tail (Utf8.toNat_toUInt8 (by omega)).symm _ hend
  have hdrop : lx.source.contents.drop lx.token.start = g.code.toUInt8 :: bytesOf gs := by
    rw [h.drop_start, hrest, Utf8.bytesOf_cons, hgenuine.head.bytes hascii]
    rfl
  have hstop : lx.token.stop = lx.token.start + 1 + k := by
    rw [← h.pos, ← hgenuine.head.width hascii]
    exact hpos
  have hmark : (g.code.toUInt8 = 34 || g.code.toUInt8 = 39) = true := by simpa using hopen
  rw [Source.rangeOfString, hdrop]
  dsimp only
  rw [if_pos hmark, hlength, Token.range, Range.between, hstop]
  congr 1
  omega

/-! ### Wherever reading leads -/

end Lexer

namespace Source

open Lexer

/-- A literal with backslashes in front of its own quote, of a line break of two characters, of a character of two
bytes, and of a byte that begins no character. -/
def escapes : Source :=
  { contents := [39, 0xC3, 0xA9, 92, 0xC3, 0xA9, 92, 39, 34, 92, 13, 10, 92, 0xFF, 0xFF, 39, 59] }

end Source

end ModuleSystem
