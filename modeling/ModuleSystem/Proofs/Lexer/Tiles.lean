import Mathlib.Data.List.Chain
import ModuleSystem.Proofs.Lexer.Place

/-!
# The lexer — the tokens of a source

`Source.Lexes s ts`: read from its start to its end, with every slash as a mark and every brace as a
brace, the source `s` gives the tokens `ts`, of which the last is the end.

`Lexer.Produces` describes the tokens that a lexer gives when it is moved on again and again: up to the end
of the source, up to a character that starts no token, or up to a fault.  Every source has exactly one such
sequence, and its tokens lie side by side with nothing but gaps between them.

* `Yields.chain`: every token tells where the one before it ended.
* `Yields.length_le`: a source has at most one token more than it has bytes.
* `Source.lexes_of_tokens?`: the tokens of a given source can be computed.
* `Token.Stands`: a token where it stands in a text, after its gap.
* `Tiles`: tokens one after the other, from an offset on.
* `Produces.unique`, `Fresh.exists_produces`: there is one sequence of tokens, and it comes to an end.
* `Met.inRange`: the places that a token tells lie in the source.
* `tokens_tile`: the tokens of a source and the gaps before them are the source.
-/

namespace ModuleSystem

open Utf8 (glyphs bytesOf)

/-! ### Up to the end -/

namespace Lexer

/-- The tokens from where a lexer stands up to the end of the source. -/
inductive Yields : Lexer → List Token → Prop where
  | last {lx : Lexer} (h : lx.token.kind = .endOfFile) : Yields lx [lx.token]
  | more {lx lx' : Lexer} {ts : List Token} (hkind : lx.token.kind ≠ .endOfFile)
      (hnext : lx.next = .ok lx') (hts : Yields lx' ts) : Yields lx (lx.token :: ts)

variable {s : Source} {lx lx' : Lexer} {t : Token} {ts : List Token}

theorem Yields.head (h : lx.Yields ts) : ts.head? = some lx.token := by
  cases h <;> rfl

/-- Behind the first token come the others, if it is not the end. -/
theorem Yields.cons_inv (h : lx.Yields (t :: ts)) (hkind : t.kind ≠ .endOfFile) :
    lx.token = t ∧ ∃ lx', lx.next = .ok lx' ∧ lx'.Yields ts := by
  cases h with
  | last heof => exact absurd heof hkind
  | more _ hnext hts => exact ⟨rfl, _, hnext, hts⟩

/-- Each token notes where the one before it ended. -/
theorem Yields.chain (h : lx.Yields ts) : ts.IsChain fun t t' => t'.prevStop = t.stop := by
  induction h with
  | last => exact .singleton _
  | more _ hnext hts ih =>
      cases hts with
      | last => exact .cons_cons (prevStop_of_next hnext) ih
      | more => exact .cons_cons (prevStop_of_next hnext) ih

/-- A character that starts no token is never left, so that the end is not reached. -/
theorem Yields.valid (h : lx.Yields ts) : lx.token.kind ≠ .invalid := by
  induction h with
  | last heof => rw [heof]; decide
  | more _ hnext _ ih =>
      intro hinvalid
      refine ih ?_
      rw [next, if_pos hinvalid] at hnext
      cases hnext
      rfl

/-- There are no more tokens than bytes left, and the end. -/
theorem Yields.length_le (h : lx.Yields ts) (hlx : Met s lx) :
    ts.length + lx.token.start ≤ s.contents.length + 1 := by
  induction h with
  | last =>
      have := hlx.places_le
      simp only [List.length_singleton]
      omega
  | @more lx lx' ts hkind hnext hts ih =>
      have hrest := ih (hlx.next hnext)
      have hlt := hlx.start_lt_stop hkind (Yields.more hkind hnext hts).valid
      have hle := (hlx.next hnext).places_le.1
      rw [prevStop_of_next hnext] at hle
      simp only [List.length_cons]
      omega

/-- The tokens from where a lexer stands, if there are at most so many. -/
def tokens? : Nat → Lexer → Option (List Token)
  | 0, _ => none
  | n + 1, lx =>
    if lx.token.kind = .endOfFile then some [lx.token]
    else lx.next.toOption.bind fun lx' => (tokens? n lx').map (lx.token :: ·)

/-- Tokens that are computed are those of the lexer. -/
theorem yields_of_tokens? {n : Nat} (h : lx.tokens? n = some ts) : lx.Yields ts := by
  induction n generalizing lx ts with
  | zero => cases h
  | succ n ih =>
      rw [tokens?] at h
      split at h
      · cases h
        exact .last ‹_›
      · obtain ⟨lx', hnext, h⟩ := Option.bind_eq_some_iff.1 h
        obtain ⟨us, hus, rfl⟩ := Option.map_eq_some_iff.1 h
        refine .more ‹_› ?_ (ih hus)
        cases hn : lx.next with
        | error e => rw [hn] at hnext; cases hnext
        | ok lx'' => rw [hn] at hnext; cases hnext; rfl

end Lexer

/-- The tokens of a source, the end included. -/
def Source.Lexes (s : Source) (ts : List Token) : Prop :=
  ∃ lx, Lexer.start s .script = .ok lx ∧ lx.Yields ts

/-- The tokens of a source, if it can be read. -/
def Source.tokens? (s : Source) : Option (List Token) :=
  (Lexer.start s .script).toOption.bind (·.tokens? (s.contents.length + 1))

/-- So they are for a whole source. -/
theorem Source.lexes_of_tokens? {s : Source} {ts : List Token} (h : s.tokens? = some ts) : s.Lexes ts := by
  obtain ⟨lx, hstart, h⟩ := Option.bind_eq_some_iff.1 h
  refine ⟨lx, ?_, Lexer.yields_of_tokens? h⟩
  cases hs : Lexer.start s .script with
  | error e => rw [hs] at hstart; cases hstart
  | ok lx' => rw [hs] at hstart; cases hstart; rfl

namespace Source.Lexes

variable {s : Source} {ts : List Token}

/-- In a source that is read to its end, each token notes where the one before it ended. -/
theorem chain (h : s.Lexes ts) : ts.IsChain fun t t' => t'.prevStop = t.stop := by
  obtain ⟨lx, -, hts⟩ := h
  exact hts.chain

/-- A source has no more tokens than bytes, and the end. -/
theorem length_le (h : s.Lexes ts) : ts.length ≤ s.contents.length + 1 := by
  obtain ⟨lx, hstart, hts⟩ := h
  have := hts.length_le (.start hstart)
  omega

end Source.Lexes

/-! ### Tokens and gaps -/

namespace Token

/-- The text between a token and the token before it. -/
def gap (t : Token) (text : Text) : Text := text.slice t.prevStop t.start

/-- No token comes after it. -/
def isLast (t : Token) : Bool := t.kind == .endOfFile || t.kind == .invalid

/-- A token where it stands in a text, after its gap. Only the end has no characters. -/
structure Stands (t : Token) (text : Text) : Prop where
  prevStop_le : t.prevStop ≤ t.start
  start_le : t.start ≤ t.stop
  stop_le : t.stop ≤ text.length
  nonempty : t.kind ≠ .endOfFile → t.start < t.stop
  ends : t.kind = .endOfFile → t.start = text.length
  raw : text.slice t.start t.stop = t.raw
  isGap : Lexer.Gap (glyphs (text.drop t.start)) (glyphs (t.gap text))

end Token

namespace Lexer

variable {lx : Lexer} {before gap word : List Glyph} {s : Source} {d : Dialect} {text : Text} {t : Token}
  {ts us : List Token} {r : Except Fault Lexer} {f g : Option Fault} {n : Nat}

/-! ### One token -/

/-- The gap before the current token, found by its offsets. -/
theorem At.glyphs_gap (h : lx.At before gap word) : glyphs (lx.token.gap lx.source.contents) = gap := by
  rw [Token.gap, h.slice_gap]
  exact (Utf8.glyphs_of_append (Utf8.glyphs_of_append h.source).2).1

/-- A token that was just read stands behind its gap, with the text that it was read from. -/
theorem Fresh.stands (h : lx.Fresh before gap word) : lx.token.Stands lx.source.contents where
  prevStop_le := h.places_le.1
  start_le := h.places_le.2.1
  stop_le := h.places_le.2.2
  nonempty hkind := h.start_lt_stop fun hword => hkind (h.ends.1 hword)
  ends hkind := by
    rw [h.contents, h.start_eq, h.ends.2 hkind, (h.last hkind).2]
    simp
  raw := h.slice_word
  isGap := by
    rw [h.glyphs_gap, h.drop_start, (Utf8.glyphs_of_append (Utf8.glyphs_of_append h.source).2).2]
    exact h.isGap

/-! ### All tokens -/

/-- What is read when a lexer is moved on as long as tokens come: the tokens, and the fault that reading
stops with, if it does. -/
inductive Produces : Except Fault Lexer → List Token → Option Fault → Prop where
  | fault (f : Fault) : Produces (.error f) [] (some f)
  | last {lx : Lexer} (h : lx.token.isLast = true) : Produces (.ok lx) [lx.token] none
  | more {lx : Lexer} {ts : List Token} {f : Option Fault} (h : lx.token.isLast = false)
      (hts : Produces lx.next ts f) : Produces (.ok lx) (lx.token :: ts) f

/-- A lexer comes to one sequence of tokens, and one end. -/
theorem Produces.unique (h : Produces r ts f) (h' : Produces r us g) : us = ts ∧ g = f := by
  induction h generalizing us g with
  | fault f =>
      cases h'
      exact ⟨rfl, rfl⟩
  | last hlast =>
      cases h' with
      | last => exact ⟨rfl, rfl⟩
      | more hmore => rw [hlast] at hmore; cases hmore
  | more hmore _ ih =>
      cases h' with
      | last hlast => rw [hlast] at hmore; cases hmore
      | more _ hts =>
          obtain ⟨rfl, rfl⟩ := ih hts
          exact ⟨rfl, rfl⟩

/-- Tokens up to the end are what the lexer comes to. -/
theorem Yields.produces (h : lx.Yields ts) : Produces (.ok lx) ts none := by
  induction h with
  | last hend => exact .last (by simp [Token.isLast, hend])
  | more hkind hnext hts ih =>
      refine .more ?_ (hnext ▸ ih)
      simp [Token.isLast, hkind, (Yields.more hkind hnext hts).valid]

/-- The tokens of a given source can be computed, if its end is reached. -/
theorem produces_of_tokens? (h : r.toOption.bind (·.tokens? n) = some ts) : Produces r ts none := by
  obtain ⟨lx, hlx, hts⟩ := Option.bind_eq_some_iff.1 h
  cases r with
  | error f => cases hlx
  | ok lx' =>
      cases hlx
      exact (yields_of_tokens? hts).produces

theorem kind_ne_of_isLast (h : t.isLast = false) : t.kind ≠ .endOfFile ∧ t.kind ≠ .invalid := by
  simpa [Token.isLast] using h

/-- Moving on leads to a token that was just read, behind all characters before it. -/
theorem Fresh.next (h : lx.Fresh before gap word) (hkind : lx.token.kind ≠ .invalid) :
    Ensures lx.next fun lx' => lx'.source = lx.source ∧ lx'.dialect = lx.dialect ∧
      ∃ gap' word', lx'.Fresh (before ++ (gap ++ word)) gap' word' :=
  next_fresh_of_read hkind (by simpa [List.append_assoc] using h.source) (h.pos.trans h.stop) h.stop h.read_last

/-- The first token of a source was just read, and nothing is before it. -/
theorem start_fresh (s : Source) (d : Dialect) : Ensures (start s d) fun lx =>
    lx.source = s ∧ lx.dialect = d ∧ ∃ gap word, lx.Fresh [] gap word :=
  @next_fresh_of_read _ [] (by simp) rfl rfl rfl (.inl (by simp))

/-- The tokens from the current one on come to an end, because each is behind the one before it. -/
theorem Fresh.exists_produces (h : lx.Fresh before gap word) : ∃ ts f, Produces (.ok lx) ts f := by
  induction hn : lx.source.contents.length - lx.token.stop using Nat.strong_induction_on
    generalizing lx before gap word with
  | _ n ih =>
      by_cases hlast : lx.token.isLast = true
      · exact ⟨_, _, .last hlast⟩
      · rw [Bool.not_eq_true] at hlast
        have hnext := h.next (kind_ne_of_isLast hlast).2
        cases hlx : lx.next with
        | error f => exact ⟨_, _, .more hlast (by rw [hlx]; exact .fault f)⟩
        | ok lx' =>
            obtain ⟨hsource, -, gap', word', h'⟩ := hnext lx' hlx
            obtain ⟨ts, f, hts⟩ : ∃ ts f, Produces (.ok lx') ts f := by
              have hstands := h'.stands
              have hprev : lx'.token.prevStop = lx.token.stop := h'.prevStop.trans h.stop.symm
              by_cases hend : lx'.token.kind = .endOfFile
              · exact ⟨_, _, .last (by simp [Token.isLast, hend])⟩
              · refine ih _ ?_ h' rfl
                have := hstands.prevStop_le
                have := hstands.nonempty hend
                have := hstands.stop_le
                rw [hsource] at *
                omega
            exact ⟨_, _, .more hlast (by rw [hlx]; exact hts)⟩

/-! ### Side by side -/

/-- The token and the gap before it. -/
def tile (text : Text) (t : Token) : Text := t.gap text ++ t.raw

/-- Tokens that stand one after the other in a text, from the offset `n` on. -/
structure Tiles (text : Text) (n : Nat) (ts : List Token) : Prop where
  stands : ∀ t ∈ ts, t.Stands text
  first : ∀ t ∈ ts.head?, t.prevStop = n
  chain : ts.IsChain fun t t' => t'.prevStop = t.stop
  later : ∀ t ∈ ts.tail, n < t.prevStop
  newline : ∀ t ∈ ts, t.newlineBefore = (decide (t.prevStop = 0) || hasLineEnd (glyphs (t.gap text)))
  whole : ∃ rest, text.drop n = ts.flatMap (tile text) ++ rest ∧
    ((∃ t ∈ ts, t.kind = .endOfFile) → rest = [])

theorem Tiles.nil : Tiles text n [] :=
  ⟨by simp, by simp, .nil, by simp, by simp, text.drop n, rfl, by simp⟩

/-- One more token in front. -/
theorem Tiles.cons (hts : Tiles text t.stop ts) (ht : t.Stands text)
    (hnewline : t.newlineBefore = (decide (t.prevStop = 0) || hasLineEnd (glyphs (t.gap text))))
    (hlast : t.kind = .endOfFile → ts = []) : Tiles text t.prevStop (t :: ts) := by
  obtain ⟨rest, hrest, hends⟩ := hts.whole
  have htile : text.drop t.prevStop = tile text t ++ text.drop t.stop := by
    rw [tile, Token.gap, ← ht.raw, List.append_assoc, Text.slice_append_drop _ ht.start_le,
      Text.slice_append_drop _ ht.prevStop_le]
  refine
    { stands := List.forall_mem_cons.2 ⟨ht, hts.stands⟩
      first := by simp
      chain := List.isChain_cons.2 ⟨hts.first, hts.chain⟩
      later := fun t' ht' => ?_
      newline := List.forall_mem_cons.2 ⟨hnewline, hts.newline⟩
      whole := ⟨rest, by rw [htile, hrest, List.flatMap_cons, List.append_assoc], ?_⟩ }
  · have hlt : t.start < t.stop := ht.nonempty fun hkind => by simp [hlast hkind] at ht'
    have hle := ht.prevStop_le
    cases ts with
    | nil => cases ht'
    | cons u us =>
        obtain rfl | hmem := List.mem_cons.1 ht'
        · have := hts.first t' rfl
          omega
        · have := hts.later t' hmem
          omega
  · rintro ⟨u, hu, hkind⟩
    obtain rfl | hmem := List.mem_cons.1 hu
    · -- behind the end nothing is left
      obtain rfl := hlast hkind
      have hlength := congrArg List.length hrest
      have := ht.ends hkind
      have := ht.start_le
      simp only [List.length_drop, List.flatMap_nil, List.nil_append] at hlength
      exact List.length_eq_zero_iff.1 (by omega)
    · exact hends ⟨u, hmem, hkind⟩

/-- Tokens with the gaps before them lie side by side, from the first byte on. -/
theorem Produces.tiles (h : Produces r ts f)
    (hr : Ensures r fun lx => lx.source = s ∧ lx.dialect = d ∧ ∃ gap word, lx.Fresh before gap word) :
    Tiles s.contents (bytesOf before).length ts := by
  induction h generalizing before with
  | fault => exact .nil
  | @last lx hlast =>
      obtain ⟨rfl, rfl, gap, word, hlx⟩ := hr lx rfl
      rw [← hlx.prevStop]
      exact .cons .nil hlx.stands (by rw [hlx.noticed, hlx.glyphs_gap]) fun _ => rfl
  | @more lx ts f hmore _ ih =>
      obtain ⟨rfl, rfl, gap, word, hlx⟩ := hr lx rfl
      have hkind := kind_ne_of_isLast hmore
      have htail := ih (hlx.next hkind.2)
      rw [← hlx.stop] at htail
      rw [← hlx.prevStop]
      exact .cons htail hlx.stands (by rw [hlx.noticed, hlx.glyphs_gap]) fun hend => absurd hend hkind.1

end Lexer

/-! ### What is used of the source -/

namespace Lexer

variable {s : Source} {lx lx' : Lexer} {d : Dialect} {c : Cursor} {quote pos : Nat} {gs : List Glyph}

/-- Only the end, and a character that starts no token, may be empty. -/
theorem start_lt_stop_of_isLast (hlx : Met s lx) (hlast : lx.token.isLast = false) :
    lx.token.start < lx.token.stop := by
  simp only [Token.isLast, Bool.or_eq_false_iff, beq_eq_false_iff_ne] at hlast
  exact hlx.start_lt_stop hlast.1 hlast.2

/-- A regular expression is read again as one. -/
theorem kind_of_asRegExp (h : lx.asRegExp = .ok lx') : lx'.token.kind = .regExp := by
  obtain ⟨c, stop, -, -, rfl⟩ := asRegExp_ok h
  rfl

/-- Wherever the lexer moves on, the token it comes to was just read. -/
theorem Met.next_fresh (hlx : Met s lx) (hkind : lx.token.kind ≠ .invalid) (h : lx.next = .ok lx') :
    ∃ before gap word, lx'.Fresh before gap word := by
  obtain ⟨-, before, gap, word, hat⟩ := hlx.exists_at
  obtain ⟨-, -, gap', word', hfresh⟩ := next_fresh_of_read hkind (by simpa [List.append_assoc] using hat.source)
    (hat.pos.trans hat.stop) hat.stop hat.read_last _ h
  exact ⟨_, gap', word', hfresh⟩

/-- A character that starts no token is never left. -/
theorem kind_of_next_invalid (hkind : lx.token.kind = .invalid) (h : lx.next = .ok lx') :
    lx'.token.kind = .invalid := by
  rw [next, if_pos hkind] at h
  cases h
  rfl

end Lexer

namespace Source

open Lexer

/-- Reading a source comes to an end and gives one sequence of tokens.  The first token starts without a
token before it, and every other one tells where the token before it ended.  Each token is the text between
its offsets and has a character unless it is the end; what stands before it is a gap of white space, line
terminators and comments that are closed.  A line terminator is noticed before the first token, and before
any other one exactly where its gap has one.  Gaps and tokens side by side are the source, up to where the
reading stops, and the whole source when it stops at the end. -/
theorem tokens_tile (s : Source) : ∃ ts f, (∀ us g, Produces (start s .script) us g ↔ us = ts ∧ g = f) ∧
    (∀ t ∈ ts, t.Stands s.contents) ∧
    (∀ t ∈ ts.head?, t.prevStop = 0 ∧ t.newlineBefore = true) ∧
    (ts.IsChain fun t t' => t'.prevStop = t.stop) ∧
    (∀ t ∈ ts.tail, t.newlineBefore = hasLineEnd (glyphs (t.gap s.contents))) ∧
    ∃ rest, s.contents = ts.flatMap (tile s.contents) ++ rest ∧
      ((∃ t ∈ ts, t.kind = .endOfFile) → rest = []) := by
  obtain ⟨ts, f, hts⟩ : ∃ ts f, Produces (start s .script) ts f := by
    cases hs : start s .script with
    | error f => exact ⟨_, _, .fault f⟩
    | ok lx =>
        obtain ⟨-, -, gap, word, hlx⟩ := start_fresh s .script lx hs
        exact hlx.exists_produces
  have htiles := hts.tiles (start_fresh s .script)
  refine ⟨ts, f, fun us g => ⟨hts.unique, ?_⟩, htiles.stands, fun t ht => ?_, htiles.chain, fun t ht => ?_, htiles.whole⟩
  · rintro ⟨rfl, rfl⟩
    exact hts
  · have hfirst : t.prevStop = 0 := htiles.first t ht
    exact ⟨hfirst, by rw [htiles.newline t (List.mem_of_head? ht), hfirst]; rfl⟩
  · have hlater : t.prevStop ≠ 0 := Nat.ne_of_gt (htiles.later t ht)
    rw [htiles.newline t (List.mem_of_mem_tail ht), decide_eq_false hlater, Bool.false_or]

end Source

end ModuleSystem
