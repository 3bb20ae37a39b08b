import ModuleSystem.Proofs.Lexer.Passes

/-!
# The lexer — where it stands in a source

A lexer that was started on a source and moved on cuts the source in four: what was read before, the gap
before the current token, the token, and what follows.  `Lexer.At` says so in characters and counts
bytes from it; `Lexer.Met` is the set of all lexers that reading a source can meet, and
`Met.exists_at` is that invariant for all of them.

* `skipGap_gap`: what is skipped between two tokens is a gap: blanks, line terminators and comments.
* `At.next`, `At.asRegExp`, `At.asTemplate`: the ways to move on keep the invariant.
* `Met.exists_at`: it holds wherever reading a source leads.
* `Met.seam_…`: no place that a token tells cuts a character, or a carriage return off its line feed.
-/

namespace ModuleSystem

/-! ### Parts of a text -/

namespace Text

/-- A part of a text and what is behind it are all from its start on. -/
theorem slice_append_drop (t : Text) {m n : Nat} (h : m ≤ n) : t.slice m n ++ t.drop n = t.drop m := by
  have hcut := List.take_append_drop (n - m) (t.drop m)
  rwa [List.drop_drop, Nat.add_sub_cancel' h] at hcut

/-- A part of a text is as long as its offsets are apart. -/
theorem length_slice (t : Text) (m : Nat) {n : Nat} (h : n ≤ t.length) : (t.slice m n).length = n - m := by
  rw [slice, List.length_take, List.length_drop]
  omega

theorem slice_middle (t u v : Text) : slice (t ++ (u ++ v)) t.length (t ++ u).length = u := by
  simp [slice]

end Text

namespace Lexer

open Cursor Utf8

variable {d : Dialect} {pos : Nat} {gs : List Glyph} {c : Cursor}

/-! ### Gaps -/

/-- Characters that are skipped between two tokens, when `rest` follows them. Only a comment at the end
of the source needs no end of its own. -/
inductive Gap (rest : List Glyph) : List Glyph → Prop where
  | nil : Gap rest []
  | space {g : Glyph} {gs : List Glyph} (h : isLineEnd g.code = true ∨ CodePoint.isBlank g.code = true)
      (tail : Gap rest gs) : Gap rest (g :: gs)
  | lineComment {g h e : Glyph} {body gs : List Glyph} (hg : g.code = 47) (hh : h.code = 47)
      (hbody : ∀ k ∈ body, isLineEnd k.code = false) (he : isLineEnd e.code = true)
      (tail : Gap rest gs) : Gap rest (g :: h :: (body ++ e :: gs))
  | lastComment {g h : Glyph} {body : List Glyph} (hg : g.code = 47) (hh : h.code = 47)
      (hbody : ∀ k ∈ body, isLineEnd k.code = false) (last : rest = []) : Gap rest (g :: h :: body)
  | blockComment {g h s e : Glyph} {body gs : List Glyph} (hg : g.code = 47) (hh : h.code = 42)
      (hs : s.code = 42) (he : e.code = 47)
      (hbody : (body ++ [s]).IsChain fun a b => ¬ (a.code = 42 ∧ b.code = 47))
      (tail : Gap rest gs) : Gap rest (g :: h :: (body ++ s :: e :: gs))

/-- A line terminator stands among the characters. -/
def hasLineEnd (gs : List Glyph) : Bool := gs.any fun g => isLineEnd g.code

/-- What is left of a gap in each state of its reading. -/
def GapState.Left (rest : List Glyph) : GapState → List Glyph → Prop
  | .space, gap => Gap rest gap
  | .lineComment _, gap =>
    (∃ body e tail, gap = body ++ e :: tail ∧ (∀ k ∈ body, isLineEnd k.code = false) ∧
        isLineEnd e.code = true ∧ Gap rest tail) ∨
      (rest = [] ∧ ∀ k ∈ gap, isLineEnd k.code = false)
  | .blockComment _, gap =>
    ∃ body s e tail, gap = body ++ s :: e :: tail ∧ s.code = 42 ∧ e.code = 47 ∧
      (body ++ [s]).IsChain (fun a b => ¬ (a.code = 42 ∧ b.code = 47)) ∧ Gap rest tail

/-- What the reading of a gap from a state ends with. -/
def Skips (state : GapState) (newline : Bool) (pos : Nat) (gs : List Glyph) (r : Cursor × Bool) :
    Prop :=
  ∃ gap, gs = gap ++ r.1.rest ∧ r.1.pos = pos + (bytesOf gap).length ∧ state.Left r.1.rest gap ∧
    r.2 = (newline || hasLineEnd gap) ∧ ∀ g ∈ r.1.rest.head?, isLineEnd g.code = false

theorem Skips.nil {newline : Bool} (h : ∀ g ∈ gs.head?, isLineEnd g.code = false) :
    Skips .space newline pos gs (⟨pos, gs⟩, newline) :=
  ⟨[], rfl, rfl, .nil, by simp [hasLineEnd], h⟩

/-- One more character in front, which the given state passes. -/
theorem Skips.cons {state state' : GapState} {newline newline' : Bool} {g : Glyph} {r : Cursor × Bool}
    (h : Skips state newline' (pos + g.width) gs r)
    (hnewline : newline' = (newline || isLineEnd g.code))
    (hleft : ∀ gap, gs = gap ++ r.1.rest → state.Left r.1.rest gap →
      state'.Left r.1.rest (g :: gap)) : Skips state' newline pos (g :: gs) r := by
  obtain ⟨gap, rfl, hpos, hgap, hr, hhead⟩ := h
  refine ⟨g :: gap, rfl, ?_, hleft gap rfl hgap, ?_, hhead⟩
  · rw [hpos, bytesOf_cons, List.length_append, Glyph.width, Nat.add_assoc]
  · rw [hr, hnewline, hasLineEnd, hasLineEnd, List.any_cons, Bool.or_assoc]

/-- The two characters that open a comment, or close it. -/
theorem Skips.cons_two {state state' : GapState} {newline : Bool} {g h : Glyph} {r : Cursor × Bool}
    (hs : Skips state newline (pos + 2) gs r) (hc : Genuine ⟨pos, g :: h :: gs⟩)
    (hg : 14 ≤ g.code ∧ g.code < 128) (hh : 14 ≤ h.code ∧ h.code < 128)
    (hleft : ∀ gap, gs = gap ++ r.1.rest → state.Left r.1.rest gap →
      state'.Left r.1.rest (g :: h :: gap)) : Skips state' newline pos (g :: h :: gs) r := by
  have hc' : Genuine ⟨pos, h :: gs⟩ := hc.tail
  obtain ⟨gap, rfl, hpos, hgap, hr, hhead⟩ := hs
  refine ⟨g :: h :: gap, rfl, ?_, hleft gap rfl hgap, ?_, hhead⟩
  · have h₁ := hc.head.width hg.2
    have h₂ := hc'.head.width hh.2
    simp only [Glyph.width] at h₁ h₂
    simp only [hpos, bytesOf_cons, List.length_append, h₁, h₂]
    omega
  · rw [hr, hasLineEnd, hasLineEnd, List.any_cons, List.any_cons, isLineEnd_of_ascii hg.1 hg.2,
      isLineEnd_of_ascii hh.1 hh.2, Bool.false_or, Bool.false_or]

/-- Blanks, ends of lines and comments are skipped up to a character that is none of them. -/
theorem skipGapFrom_skips {state : GapState} {newline : Bool} (hc : Genuine ⟨pos, gs⟩) :
    Ensures (skipGapFrom d state newline pos gs) (Skips state newline pos gs) := by
  fun_induction skipGapFrom d state newline pos gs with
  | case1 newline pos => exact .ok (.nil (by simp))
  | case2 start newline pos =>
      refine .bind_ok fun _ _ => .ok ?_
      exact ⟨[], rfl, rfl, .inr ⟨rfl, by simp⟩, by simp [hasLineEnd], by simp⟩
  | case3 => exact .error
  | case4 newline pos g gs hg ih =>
      exact (ih hc.tail).mono fun r hr => hr.cons (by simp [hg]) fun _ _ hgap => .space (.inl hg) hgap
  | case5 newline pos g gs hg hblank ih =>
      exact (ih hc.tail).mono fun r hr =>
        hr.cons (by simp [hg]) fun _ _ hgap => .space (.inr hblank) hgap
  | case6 newline pos g _ _ h hs hopen ih =>
      simp only [Bool.and_eq_true, decide_eq_true_eq] at hopen
      have hc' : Genuine ⟨pos, h :: hs⟩ := hc.tail
      refine (ih hc'.tail).mono fun r hr =>
        hr.cons_two hc (by omega) (by omega) fun gap _ hleft => ?_
      obtain ⟨body, e, tail, rfl, hbody, he, htail⟩ | ⟨hlast, hbody⟩ := hleft
      · exact .lineComment hopen.1 hopen.2 hbody he htail
      · exact .lastComment hopen.1 hopen.2 hbody hlast
  | case7 newline pos g _ _ h hs _ hopen ih =>
      simp only [Bool.and_eq_true, decide_eq_true_eq] at hopen
      have hc' : Genuine ⟨pos, h :: hs⟩ := hc.tail
      refine (ih hc'.tail).mono fun r hr =>
        hr.cons_two hc (by omega) (by omega) fun gap _ hleft => ?_
      obtain ⟨body, s, e, tail, rfl, hs, he, hbody, htail⟩ := hleft
      exact .blockComment hopen.1 hopen.2 hs he hbody htail
  | case8 newline pos g hg _ h hs _ _ => exact .ok (.nil (by simpa using hg))
  | case9 newline pos g hg _ => exact .ok (.nil (by simpa using hg))
  | case10 start newline pos g gs hg ih =>
      refine .bind_ok fun _ _ => ?_
      exact (ih hc.tail).mono fun r hr => hr.cons (by simp [hg]) fun gap _ hgap =>
        .inl ⟨[], g, gap, rfl, by simp, hg, hgap⟩
  | case11 start newline pos g gs hg ih =>
      refine (ih hc.tail).mono fun r hr => hr.cons (by simp [hg]) fun gap _ hleft => ?_
      have hg : isLineEnd g.code = false := by simpa using hg
      obtain ⟨body, e, tail, rfl, hbody, he, htail⟩ | ⟨hlast, hbody⟩ := hleft
      · exact .inl ⟨g :: body, e, tail, rfl, by simpa [hg] using hbody, he, htail⟩
      · exact .inr ⟨hlast, by simpa [hg] using hbody⟩
  | case12 start newline pos g h hs hclose ih =>
      simp only [Bool.and_eq_true, decide_eq_true_eq] at hclose
      have hc' : Genuine ⟨pos, h :: hs⟩ := hc.tail
      refine .bind_ok fun _ _ => ?_
      exact (ih hc'.tail).mono fun r hr => hr.cons_two hc (by omega) (by omega) fun gap _ hgap =>
        ⟨[], g, h, gap, rfl, hclose.1, hclose.2, .singleton g, hgap⟩
  | case13 start newline pos g h hs hclose ih =>
      simp only [Bool.and_eq_true, decide_eq_true_eq] at hclose
      refine (ih hc.tail).mono fun r hr => hr.cons rfl fun gap hgs hleft => ?_
      obtain ⟨body, s, e, tail, rfl, hs, he, hbody, htail⟩ := hleft
      refine ⟨g :: body, s, e, tail, rfl, hs, he, ?_, htail⟩
      -- the character after `g` is the first one of what is left of the comment
      cases body with
      | nil =>
          obtain ⟨rfl, -⟩ := List.cons.inj hgs
          exact .cons_cons hclose (.singleton _)
      | cons k body =>
          obtain ⟨rfl, -⟩ := List.cons.inj hgs
          exact .cons_cons hclose hbody
  | case14 start newline pos g ih =>
      refine (ih hc.tail).mono fun r hr => ?_
      obtain ⟨gap, hgs, -, ⟨body, s, e, tail, rfl, -⟩, -⟩ := hr
      simp at hgs

/-- What is skipped between two tokens is a gap, and a line terminator is noticed. -/
theorem skipGap_gap {newline : Bool} (hc : c.Genuine) :
    Ensures (skipGap d newline c) fun r => ∃ gap, c.rest = gap ++ r.1.rest ∧
      r.1.pos = c.pos + (bytesOf gap).length ∧ Gap r.1.rest gap ∧
      r.2 = (newline || hasLineEnd gap) ∧ ∀ g ∈ r.1.rest.head?, isLineEnd g.code = false :=
  skipGapFrom_skips hc

/-! ### Kinds of tokens -/

/-- Keywords are names. -/
theorem isName_of_mem_keywords {p : Text × TokenKind} (h : p ∈ TokenKind.keywords) :
    p.2.isName = true := by
  revert p
  decide

/-- Punctuators are no names. -/
theorem isName_of_mem_punctuators {p : Text × TokenKind} (h : p ∈ TokenKind.punctuators) :
    p.2.isName = false := by
  revert p
  decide

/-- Punctuation is in ASCII. -/
theorem ascii_of_mem_punctuators {p : Text × TokenKind} (h : p ∈ TokenKind.punctuators) :
    p.1 ≠ [] ∧ ∀ b ∈ p.1, 14 ≤ b.toNat ∧ b.toNat < 128 := by
  revert p
  decide

/-- Every kind of punctuation has one spelling. -/
theorem spelling_of_mem_punctuators {p q : Text × TokenKind} (hp : p ∈ TokenKind.punctuators)
    (hq : q ∈ TokenKind.punctuators) (h : p.2 = q.2) : p.1 = q.1 := by
  have hone : ∀ p ∈ TokenKind.punctuators, ∀ q ∈ TokenKind.punctuators, p.2 = q.2 → p.1 = q.1 := by
    decide +kernel
  exact hone p hp q hq h

/-- A name is a keyword or an identifier. -/
theorem nameKind_isName (name : Text) : (nameKind name).isName = true := by
  rw [nameKind]
  cases h : TokenKind.keywords.lookup name with
  | none => rfl
  | some k =>
      obtain ⟨l₁, l₂, hk, -⟩ := List.lookup_eq_some_iff.1 h
      exact isName_of_mem_keywords (p := (name, k)) (by rw [hk]; simp)

/-- So is one with escapes. -/
theorem escapedNameKind_isName (name : Text) : (escapedNameKind name).isName = true := by
  rw [escapedNameKind]
  split <;> rfl

/-- A number in another base is a number or a big integer. -/
theorem scanBased_kind {base : Nat} : Ensures (scanBased base c) fun r =>
    r.1 = .number ∨ r.1 = .bigInteger := by
  unfold scanBased
  extract_lets c₁ rest
  have hrest : Ensures (rest ()) fun r => r.1 = .number ∨ r.1 = .bigInteger := by
    refine .bind_ok fun c₂ _ => ?_
    split
    · exact .ok (.inr rfl)
    · exact .ok (.inl rfl)
  split
  · exact hrest
  · exact .throw_bind

theorem scanDecimal_kind {start first : Nat} : Ensures (scanDecimal start first c) fun r =>
    r.1 = .number ∨ r.1 = .bigInteger := by
  unfold scanDecimal
  extract_lets legacy
  refine .bind_ok fun c₁ _ => ?_
  extract_lets hasPoint afterPoint
  have hpoint : ∀ c₂, Ensures (afterPoint c₂) fun r => r.1 = .number ∨ r.1 = .bigInteger := by
    intro c₂
    dsimp -zeta only [afterPoint]
    extract_lets hasExponent afterExponent
    have hexponent : ∀ c₃,
        Ensures (afterExponent c₃) fun r => r.1 = .number ∨ r.1 = .bigInteger := by
      intro c₃
      simp only [afterExponent]
      split
      · split
        · exact .throw_bind
        · exact .ok (.inr rfl)
      · exact .ok (.inl rfl)
    split
    · exact .bind_ok fun c₃ _ => hexponent c₃
    · exact .pure_bind (hexponent c₂)
  split
  · exact .bind_ok fun c₂ _ => hpoint c₂
  · exact .pure_bind (hpoint c₁)

/-- So is a number of any form. -/
theorem scanNumber_kind {start first : Nat} : Ensures (scanNumber start first c) fun r =>
    r.1 = .number ∨ r.1 = .bigInteger := by
  unfold scanNumber
  extract_lets rest
  have hrest : ∀ r : TokenKind × Cursor, r.1 = .number ∨ r.1 = .bigInteger →
      Ensures (rest r) fun r => r.1 = .number ∨ r.1 = .bigInteger := by
    rintro ⟨kind, c₁⟩ hkind
    dsimp -zeta only [rest]
    split
    · exact .throw_bind
    · exact .ok hkind
  split
  · exact scanBased_kind.bind hrest
  · exact scanDecimal_kind.bind hrest

/-- What is read as a name is a name. -/
theorem scanName_kind : Ensures (scanName d c) fun r => r.1.isName = true := by
  unfold scanName
  extract_lets stop name
  split
  · exact .bind_ok fun r _ => .ok (escapedNameKind_isName _)
  · exact .ok (nameKind_isName _)

/-! ### Lexemes -/

/-- A lexeme covers the characters `word` from a cursor on: names are identifiers, punctuation is
spelled in its one way, and only the end of the source has no characters. -/
structure Lexeme.Covers (l : Lexeme) (c : Cursor) (word : List Glyph) : Prop where
  rest : c.rest = word ++ l.cursor.rest
  pos : l.cursor.pos = c.pos + (bytesOf word).length
  last : ∀ g ∈ word.getLast?, isLineEnd g.code = false
  named : l.kind.isName = true → isIdentifier l.name = true
  spelled : ∀ s, (s, l.kind) ∈ TokenKind.punctuators → bytesOf word = s
  empty : word = [] → l.kind = .endOfFile ∧ c.rest = []

/-- A lexeme that passes characters covers them, if a name of it is an identifier and it is no punctuator. -/
theorem exists_covers_of_passes {l : Lexeme} (h : c.Passes l.cursor)
    (hnamed : l.kind.isName = true → isIdentifier l.name = true)
    (hkind : ∀ s, (s, l.kind) ∉ TokenKind.punctuators) : ∃ word, l.Covers c word := by
  obtain ⟨gs, g, hrest, hpos, hg⟩ := h.exists_glyphs
  exact ⟨gs ++ [g], by simpa using hrest, hpos, by simpa using hg, hnamed,
    fun s hs => absurd hs (hkind s), by simp⟩

/-- No name is a punctuator. -/
theorem not_mem_punctuators_of_isName {kind : TokenKind} (h : kind.isName = true) (s : Text) :
    (s, kind) ∉ TokenKind.punctuators := by
  intro hs
  have := isName_of_mem_punctuators hs
  simp_all

/-- The kind of tokens that are neither names nor punctuation. -/
def isOther (k : TokenKind) : Bool := !k.isName && TokenKind.punctuators.all (·.2 != k)

/-- A lexeme that is neither name nor punctuator covers what it passes. -/
theorem exists_covers_of_isOther {l : Lexeme} {k : TokenKind} (h : c.Passes l.cursor) (hk : l.kind = k)
    (hother : isOther k = true) : ∃ word, l.Covers c word := by
  simp only [isOther, Bool.and_eq_true, Bool.not_eq_true', List.all_eq_true] at hother
  refine exists_covers_of_passes h (by simp [hk, hother.1]) fun s hs => ?_
  have hne := hother.2 _ (hk ▸ hs)
  simp at hne

/-- As many steps as there are characters lead behind them. -/
theorem steps_append (word rest : List Glyph) (pos : Nat) :
    Cursor.steps word.length ⟨pos, word ++ rest⟩ = ⟨pos + (bytesOf word).length, rest⟩ := by
  induction word generalizing pos with
  | nil => rfl
  | cons g word ih =>
      rw [List.length_cons, Cursor.steps, List.cons_append, Cursor.step]
      dsimp only
      rw [ih, bytesOf_cons, List.length_append, Glyph.width, Nat.add_assoc]

/-- The glyphs of a text in ASCII, found by their code points. -/
theorem bytesOf_of_codes {s : Text} (hgs : ∀ g ∈ gs, g.Genuine)
    (h : gs.map (·.code) = s.map (·.toNat)) (hs : ∀ b ∈ s, b.toNat < 128) : bytesOf gs = s := by
  induction gs generalizing s with
  | nil =>
      cases s with
      | nil => rfl
      | cons b s => cases h
  | cons g gs ih =>
      cases s with
      | nil => cases h
      | cons b s =>
          rw [List.map_cons, List.map_cons, List.cons.injEq] at h
          have hg := (hgs g List.mem_cons_self).bytes (by rw [h.1]; exact hs b List.mem_cons_self)
          rw [bytesOf_cons, hg, h.1, ih (fun k hk => hgs k (List.mem_cons_of_mem _ hk)) h.2
            fun k hk => hs k (List.mem_cons_of_mem _ hk)]
          simp

/-- A punctuator covers the characters that it is written with. -/
theorem punctuator?_covers {s : Text} {kind : TokenKind} (hc : c.Genuine)
    (h : punctuator? c.rest = some (s, kind)) :
    ∃ word, Lexeme.Covers { kind, cursor := c.steps s.length } c word := by
  unfold punctuator? at h
  have hmem : (s, kind) ∈ TokenKind.punctuators := List.mem_of_find?_eq_some h
  obtain ⟨hne, hascii⟩ := ascii_of_mem_punctuators hmem
  have hbegins := List.find?_some h
  simp only [Bool.and_eq_true, List.isPrefixOf_iff_prefix] at hbegins
  -- the spelling is found among the code points of the characters at the cursor
  obtain ⟨word, rest, hrest, hcodes⟩ : ∃ word rest, c.rest = word ++ rest ∧
      word.map (·.code) = s.map (·.toNat) := by
    obtain ⟨more, hmore⟩ := hbegins.1
    obtain ⟨word, rest, htake, hword, -⟩ := List.map_eq_append_iff.1 hmore.symm
    exact ⟨word, rest ++ c.rest.drop 4, by rw [← List.append_assoc, ← htake, List.take_append_drop],
      hword⟩
  have hgenuine : ∀ g ∈ word, g.Genuine := fun g hg => hc g (by simp [hrest, hg])
  have hbytes := bytesOf_of_codes hgenuine hcodes fun b hb => (hascii b hb).2
  have hlen : word.length = s.length := by simpa using congrArg List.length hcodes
  have hsteps : c.steps s.length = ⟨c.pos + (bytesOf word).length, rest⟩ := by
    rw [← steps_append, hlen, ← hrest]
  refine ⟨word, by rw [hsteps]; exact hrest, by rw [hsteps], ?_, ?_, ?_, ?_⟩
  · intro g hg
    have hcode : g.code ∈ s.map (·.toNat) :=
      hcodes ▸ List.mem_map_of_mem (List.mem_of_getLast? hg)
    obtain ⟨b, hb, hbg⟩ := List.mem_map.1 hcode
    exact hbg ▸ isLineEnd_of_ascii (hascii b hb).1 (hascii b hb).2
  · intro hname
    exact absurd hmem (not_mem_punctuators_of_isName hname s)
  · intro s' hs'
    exact hbytes.trans (spelling_of_mem_punctuators hmem hs' rfl)
  · intro hnil
    exact absurd (by simpa [hnil] using hbytes.symm) hne

/-- Every lexeme covers some characters at the cursor. -/
theorem scanLexeme_covers (hc : c.Genuine) (hhead : ∀ g ∈ c.rest.head?, isLineEnd g.code = false) :
    Ensures (scanLexeme d c) fun l => ∃ word, l.Covers c word := by
  obtain ⟨pos, rest⟩ := c
  cases rest with
  | nil =>
      -- the end of the file is no name and no punctuator, and covers no character
      have hother : isOther .endOfFile = true := by decide
      simp only [isOther, Bool.and_eq_true, Bool.not_eq_true', List.all_eq_true] at hother
      refine .ok ⟨[], rfl, rfl, by simp, by simp [hother.1], fun s hs => ?_, fun _ => ⟨rfl, rfl⟩⟩
      have hne := hother.2 _ hs
      simp at hne
  | cons g gs =>
      unfold scanLexeme
      dsimp -zeta only
      extract_lets next
      have hg : isLineEnd g.code = false := hhead g rfl
      have hnext : Passes ⟨pos, g :: gs⟩ next := .last hg
      have hcnext : next.Genuine := hnext.genuine hc
      split
      · rename_i hsign
        split
        · refine .ok (exists_covers_of_isOther (k := .hashbang) ?_ rfl (by decide))
          exact skip_passes (p := fun code => !isLineEnd code) (by simp) (by simp [sees, peek, hg])
        · exact (scanPrivateName_passes hc (by simpa [peek] using hsign)).bind
            fun r hr => .ok (exists_covers_of_isOther hr.1 hr.2 (by decide))
      split
      · rename_i hquote
        simp only [Bool.or_eq_true, decide_eq_true_eq] at hquote
        refine (scanQuoted_passes (by omega) hcnext).bind fun r hr => ?_
        obtain ⟨hpass, closing, hkind⟩ := hr
        refine .ok (exists_covers_of_isOther (hnext.trans hpass) hkind ?_)
        unfold quotedKind
        split
        · decide
        · cases closing <;> decide
      split
      · refine .bind (P := fun r => next.Reaches r.2 ∧ (r.1 = .number ∨ r.1 = .bigInteger))
          (fun r hr => ⟨scanNumber_reaches hcnext r hr, scanNumber_kind r hr⟩) fun r hr => ?_
        obtain ⟨hpass, hkind | hkind⟩ := hr
        · exact .ok (exists_covers_of_isOther (hnext.then hpass) hkind (by decide))
        · exact .ok (exists_covers_of_isOther (hnext.then hpass) hkind (by decide))
      split
      · rename_i hstart
        refine .bind (P := fun r => (Passes ⟨pos, g :: gs⟩ r.2.2 ∧ isIdentifier r.2.1 = true) ∧
          r.1.isName = true) (fun r hr => ⟨scanName_passes hc ?_ r hr, scanName_kind r hr⟩)
          fun r hr => ?_
        · simpa [sees, peek] using hstart
        · exact .ok (exists_covers_of_passes hr.1.1 (fun _ => hr.1.2)
            (not_mem_punctuators_of_isName hr.2))
      split
      · rename_i s kind hfound
        exact .ok (punctuator?_covers hc hfound)
      · exact .ok (exists_covers_of_isOther (k := .invalid) hnext rfl (by decide))

/-- What a lexeme can be. -/
inductive Lexeme.Origin (d : Dialect) (c : Cursor) (l : Lexeme) : Prop where
  | ended (hrest : c.rest = []) (hkind : l.kind = .endOfFile)
  | sign (hkind : l.kind = .hashbang ∨ l.kind = .privateName)
  | quoted {g : Glyph} {gs : List Glyph} {closing : Closing} (hrest : c.rest = g :: gs)
      (hquote : g.code = 34 ∨ g.code = 39 ∨ g.code = 96) (hkind : l.kind = quotedKind g.code false closing)
      (h : scanQuoted d g.code false c.pos ⟨c.pos + g.width, gs⟩ = .ok (l.kind, l.units, l.cursor))
  | number (hkind : l.kind = .number ∨ l.kind = .bigInteger)
  | name (hname : l.kind.isName = true) (h : scanName d c = .ok (l.kind, l.name, l.cursor))
  | mark {spelling : Text} (h : (spelling, l.kind) ∈ TokenKind.punctuators)
  | other (hkind : l.kind = .invalid)

/-- Every lexeme comes from one of the ways to read one. -/
theorem scanLexeme_origin (hc : c.Genuine) : Ensures (scanLexeme d c) (Lexeme.Origin d c) := by
  obtain ⟨pos, rest⟩ := c
  cases rest with
  | nil => exact .ok (.ended rfl rfl)
  | cons g gs =>
      unfold scanLexeme
      dsimp -zeta only
      extract_lets next
      have hnext : next.Genuine := hc.tail
      split
      · split
        · exact .ok (.sign (.inl rfl))
        · rename_i hsign _
          exact (scanPrivateName_passes hc (by simpa [peek] using hsign)).bind fun r hr => .ok (.sign (.inr hr.2))
      split
      · rename_i hquote
        simp only [Bool.or_eq_true, decide_eq_true_eq, or_assoc] at hquote
        refine .bind (P := fun r => scanQuoted d g.code false pos next = .ok r ∧
          ∃ closing, r.1 = quotedKind g.code false closing) (fun r hr => ⟨hr, ?_⟩) fun r hr => ?_
        · exact (scanQuoted_passes (by omega) hnext r hr).2
        · obtain ⟨hscan, closing, hkind⟩ := hr
          exact .ok (.quoted rfl hquote hkind hscan)
      split
      · exact .bind scanNumber_kind fun r hr => .ok (.number hr)
      split
      · exact .bind (P := fun r => scanName d ⟨pos, g :: gs⟩ = .ok r ∧ r.1.isName = true)
          (fun r hr => ⟨hr, scanName_kind r hr⟩) fun r hr => .ok (.name hr.2 hr.1)
      split
      · rename_i s kind hfound
        have hmem : (s, kind) ∈ TokenKind.punctuators := by
          unfold punctuator? at hfound
          exact List.mem_of_find?_eq_some hfound
        exact .ok (.mark hmem)
      · exact .ok (.other rfl)

/-- A template is no string. -/
theorem quotedKind_template (resumed : Bool) (closing : Closing) : quotedKind 96 resumed closing ≠ .string := by
  cases resumed <;> cases closing <;> decide

/-- A string opens with a quote. -/
theorem Lexeme.Origin.scanQuoted_of_kind {l : Lexeme} (h : l.Origin d c) (hkind : l.kind = .string) :
    ∃ g gs, c.rest = g :: gs ∧ (g.code = 34 ∨ g.code = 39) ∧
      scanQuoted d g.code false c.pos ⟨c.pos + g.width, gs⟩ = .ok (l.kind, l.units, l.cursor) := by
  have hmarks : isOther .string = true := by decide
  simp only [isOther, Bool.and_eq_true, Bool.not_eq_true', List.all_eq_true] at hmarks
  cases h with
  | ended _ h | sign h | number h | other h => simp [hkind] at h
  | name hname _ => rw [hkind, hmarks.1] at hname; cases hname
  | mark hmark => exact absurd hkind (by simpa using hmarks.2 _ hmark)
  | @quoted g gs closing hrest hquote hquoted hscan =>
      refine ⟨g, gs, hrest, ?_, hscan⟩
      obtain hcode | hcode | hcode := hquote
      · exact .inl hcode
      · exact .inr hcode
      · exact absurd (hquoted.symm.trans hkind) (by rw [hcode]; exact quotedKind_template _ _)

/-- The end is read at the end only. -/
theorem Lexeme.Origin.rest_eq_nil {l : Lexeme} (h : l.Origin d c) (hkind : l.kind = .endOfFile) : c.rest = [] := by
  cases h with
  | ended hrest _ => exact hrest
  | sign h | number h => simp [hkind] at h
  | quoted _ _ hquoted _ =>
      rw [hkind] at hquoted
      unfold quotedKind at hquoted
      split at hquoted
      · cases hquoted
      · split at hquoted <;> cases hquoted
  | name hname _ => rw [hkind] at hname; cases hname
  | mark hmark =>
      have hother : TokenKind.punctuators.all (·.2 != .endOfFile) = true := by decide
      have hne := List.all_eq_true.1 hother _ hmark
      rw [hkind] at hne
      cases hne
  | other hother => rw [hkind] at hother; cases hother

/-! ### The place of a lexer -/

/-- The lexer stands on the token `word`, with `gap` between it and what was read before. -/
structure At (lx : Lexer) (before gap word : List Glyph) : Prop where
  source : glyphs lx.source.contents = before ++ (gap ++ (word ++ lx.cursor.rest))
  prevStop : lx.token.prevStop = (bytesOf before).length
  start : lx.token.start = (bytesOf (before ++ gap)).length
  stop : lx.token.stop = (bytesOf (before ++ (gap ++ word))).length
  pos : lx.cursor.pos = lx.token.stop
  raw : lx.token.raw = bytesOf word
  before_last :
    (∀ g ∈ before.getLast?, isLineEnd g.code = false) ∨ gap ++ (word ++ lx.cursor.rest) = []
  word_head : ∀ g ∈ word.head?, isLineEnd g.code = false
  word_last : ∀ g ∈ word.getLast?, isLineEnd g.code = false
  isGap : Gap (word ++ lx.cursor.rest) gap
  newline : lx.token.newlineBefore = true → lx.token.prevStop = 0 ∨ hasLineEnd gap = true
  named : lx.token.kind.isName = true → isIdentifier lx.token.name = true
  spelled : ∀ s, (s, lx.token.kind) ∈ TokenKind.punctuators → lx.token.raw = s
  empty : word = [] → (lx.token.kind = .endOfFile ∧ lx.cursor.rest = []) ∨
    (lx.token.kind = .invalid ∧ gap = [])

variable {lx lx' : Lexer} {before gap word : List Glyph}

/-! The texts that the token and its gap cut a source in, found by their offsets. -/

/-- The characters of the token, and those behind it, are characters of the source. -/
theorem At.mem_glyphs (h : lx.At before gap word) {g : Glyph} (hg : g ∈ word ++ lx.cursor.rest) :
    g ∈ glyphs lx.source.contents := by
  rw [h.source]
  exact List.mem_append_right _ (List.mem_append_right _ hg)

theorem At.genuine (h : lx.At before gap word) : lx.cursor.Genuine := fun _ hg =>
  Glyph.genuine_of_mem (h.mem_glyphs (List.mem_append_right _ hg))

/-- The source is cut in four: what was read, the gap, the token and the rest. -/
theorem At.contents (h : lx.At before gap word) :
    lx.source.contents = bytesOf before ++ (bytesOf gap ++ (bytesOf word ++ bytesOf lx.cursor.rest)) := by
  rw [← bytesOf_append, ← bytesOf_append, ← bytesOf_append, ← h.source, bytesOf_glyphs]

theorem At.start_eq (h : lx.At before gap word) : lx.token.start = (bytesOf before ++ bytesOf gap).length := by
  rw [h.start, bytesOf_append]

/-- A token ends behind its own characters. -/
theorem At.stop_eq (h : lx.At before gap word) :
    lx.token.stop = (bytesOf before ++ bytesOf gap ++ bytesOf word).length := by
  rw [h.stop, bytesOf_append, bytesOf_append, List.append_assoc]

/-- It is as long as its characters. -/
theorem At.stop_eq_add (h : lx.At before gap word) :
    lx.token.stop = lx.token.start + (bytesOf word).length := by
  rw [h.stop_eq, List.length_append, ← h.start_eq]

/-- What was read goes up to the end of the token before. -/
theorem At.take_prevStop (h : lx.At before gap word) :
    lx.source.contents.take lx.token.prevStop = bytesOf before := by
  rw [h.contents, h.prevStop, List.take_left]

/-- Between the tokens is the gap. -/
theorem At.slice_gap (h : lx.At before gap word) :
    lx.source.contents.slice lx.token.prevStop lx.token.start = bytesOf gap := by
  rw [h.contents, h.prevStop, h.start_eq, Text.slice_middle]

/-- What follows from the first character of the current token on. -/
theorem At.drop_start (h : lx.At before gap word) :
    lx.source.contents.drop lx.token.start = bytesOf (word ++ lx.cursor.rest) := by
  rw [h.contents, h.start_eq, ← List.append_assoc, List.drop_left, bytesOf_append]

/-- The characters of a token are its text in the source. -/
theorem At.slice_word (h : lx.At before gap word) :
    lx.source.contents.slice lx.token.start lx.token.stop = lx.token.raw := by
  rw [h.contents, h.start_eq, h.stop_eq, h.raw, ← List.append_assoc, Text.slice_middle]

/-- The places that a token tells are in order, and within the source. -/
theorem At.places_le (h : lx.At before gap word) : lx.token.prevStop ≤ lx.token.start ∧
    lx.token.start ≤ lx.token.stop ∧ lx.token.stop ≤ lx.source.contents.length := by
  rw [h.contents, h.prevStop, h.start_eq, h.stop_eq]
  simp only [List.length_append]
  omega

/-- A token with a character ends behind its start. -/
theorem At.start_lt_stop (h : lx.At before gap word) (hword : word ≠ []) : lx.token.start < lx.token.stop := by
  obtain ⟨g, word, rfl⟩ := List.exists_cons_of_ne_nil hword
  have hpos := Utf8.width_pos_of_mem (h.mem_glyphs (g := g) (by simp))
  rw [Glyph.width] at hpos
  rw [h.start_eq, h.stop_eq, bytesOf_cons]
  simp only [List.length_append]
  omega

@[simp] theorem onto_source (start : Cursor) (newline : Bool) (prevStop : Nat) (l : Lexeme) :
    (lx.onto start newline prevStop l).source = lx.source := rfl

@[simp] theorem onto_cursor (start : Cursor) (newline : Bool) (prevStop : Nat) (l : Lexeme) :
    (lx.onto start newline prevStop l).cursor = l.cursor := rfl

@[simp] theorem onto_kind (start : Cursor) (newline : Bool) (prevStop : Nat) (l : Lexeme) :
    (lx.onto start newline prevStop l).token.kind = l.kind := rfl

/-- The lexer on a token whose characters are known. -/
theorem at_onto {start : Cursor} {newline : Bool} {l : Lexeme}
    (hsource : glyphs lx.source.contents = before ++ (gap ++ start.rest))
    (hpos : start.pos = (bytesOf (before ++ gap)).length)
    (hlast : (∀ g ∈ before.getLast?, isLineEnd g.code = false) ∨ gap ++ start.rest = [])
    (hgap : Gap start.rest gap) (hhead : ∀ g ∈ start.rest.head?, isLineEnd g.code = false)
    (hnewline : newline = true → (bytesOf before).length = 0 ∨ hasLineEnd gap = true)
    (hl : l.Covers start word) :
    (lx.onto start newline (bytesOf before).length l).At before gap word := by
  have hgenuine : ∀ g ∈ word, g.Genuine := fun g hg =>
    Glyph.genuine_of_mem (t := lx.source.contents) (by rw [hsource, hl.rest]; simp [hg])
  -- the bytes up to the new position are those of the word
  have hraw : bytesOf (Glyph.takeBytes (l.cursor.pos - start.pos) start.rest) = bytesOf word := by
    rw [hl.pos, Nat.add_sub_cancel_left, hl.rest, Glyph.takeBytes_append hgenuine]
  refine
    { source := ?_
      prevStop := rfl
      start := hpos
      stop := ?_
      pos := rfl
      raw := hraw
      before_last := ?_
      word_head := ?_
      word_last := hl.last
      isGap := ?_
      newline := hnewline
      named := hl.named
      spelled := ?_
      empty := fun hnil => .inl ?_ }
  · rw [onto_source, hsource, hl.rest]
    rfl
  · show l.cursor.pos = _
    simp only [hl.pos, hpos, bytesOf_append, List.length_append, Nat.add_assoc]
  · rwa [hl.rest] at hlast
  · intro g hg
    refine hhead g ?_
    rw [hl.rest, List.head?_append, Option.mem_def.1 hg]
    rfl
  · rwa [hl.rest] at hgap
  · intro s hs
    exact hraw.trans (hl.spelled s hs)
  · obtain ⟨hkind, hrest⟩ := hl.empty hnil
    rw [hl.rest, hnil] at hrest
    exact ⟨hkind, hrest⟩

/-- The lexer stands on a token that it has just moved on to: it has noticed the line terminators before the
token, and has read the token where it stands. -/
structure Fresh (lx : Lexer) (before gap word : List Glyph) : Prop extends lx.At before gap word where
  noticed : lx.token.newlineBefore = (decide (lx.token.prevStop = 0) || hasLineEnd gap)
  nonempty : word = [] → lx.token.kind = .endOfFile
  scanned : scanLexeme lx.dialect ⟨lx.token.start, word ++ lx.cursor.rest⟩ =
    .ok ⟨lx.token.kind, lx.cursor, lx.token.units, lx.token.name⟩

/-- A token that was just read comes from one of the ways to read one, at its start. -/
theorem Fresh.origin (h : lx.Fresh before gap word) :
    Lexeme.Origin lx.dialect ⟨lx.token.start, word ++ lx.cursor.rest⟩
      ⟨lx.token.kind, lx.cursor, lx.token.units, lx.token.name⟩ :=
  scanLexeme_origin (fun g hg => Glyph.genuine_of_mem (t := lx.source.contents) (by
    rw [h.source]
    exact List.mem_append_right _ (List.mem_append_right _ hg))) _ h.scanned

/-- Behind the end nothing is left. -/
theorem Fresh.last (h : lx.Fresh before gap word) (hkind : lx.token.kind = .endOfFile) :
    word = [] ∧ lx.cursor.rest = [] :=
  List.append_eq_nil_iff.1 (h.origin.rest_eq_nil hkind)

/-- Only the end has no characters. -/
theorem Fresh.ends (h : lx.Fresh before gap word) : word = [] ↔ lx.token.kind = .endOfFile :=
  ⟨h.nonempty, fun hkind => (h.last hkind).1⟩

/-- The next token is read from where the current one ends. -/
theorem next_fresh_of_read {read : List Glyph} (hkind : lx.token.kind ≠ .invalid)
    (hsource : glyphs lx.source.contents = read ++ lx.cursor.rest)
    (hpos : lx.cursor.pos = (bytesOf read).length) (hstop : lx.token.stop = (bytesOf read).length)
    (hlast : (∀ g ∈ read.getLast?, isLineEnd g.code = false) ∨ lx.cursor.rest = []) :
    Ensures lx.next fun lx' => lx'.source = lx.source ∧ lx'.dialect = lx.dialect ∧
      ∃ gap word, lx'.Fresh read gap word := by
  have hgenuine : lx.cursor.Genuine := fun g hg =>
    Glyph.genuine_of_mem (t := lx.source.contents) (by rw [hsource]; simp [hg])
  unfold next
  extract_lets prev
  rw [if_neg hkind]
  refine (skipGap_gap hgenuine).bind fun r hr => ?_
  obtain ⟨gap, hrest, hrpos, hgap, hnewline, hhead⟩ := hr
  have hstart : r.1.Genuine := fun g hg => hgenuine g (by rw [hrest]; simp [hg])
  refine .bind_ok fun l hl => .ok ⟨rfl, rfl, gap, ?_⟩
  obtain ⟨word, hword⟩ := scanLexeme_covers hstart hhead l hl
  rw [show prev = (bytesOf read).length from hstop] at hnewline ⊢
  refine ⟨word, at_onto (by rw [hsource, hrest]) ?_ (by rwa [hrest] at hlast) hgap hhead ?_ hword, hnewline,
    fun hnil => (hword.empty hnil).1, ?_⟩
  · rw [hrpos, hpos, bytesOf_append, List.length_append]
  · intro h
    rw [hnewline] at h
    simpa using h
  · rw [onto_cursor, ← hword.rest]
    exact hl

/-- Moving on from the end of a token leads to a gap and the token behind it. -/
theorem next_at_of_read {read : List Glyph} (hkind : lx.token.kind ≠ .invalid)
    (hsource : glyphs lx.source.contents = read ++ lx.cursor.rest)
    (hpos : lx.cursor.pos = (bytesOf read).length) (hstop : lx.token.stop = (bytesOf read).length)
    (hlast : (∀ g ∈ read.getLast?, isLineEnd g.code = false) ∨ lx.cursor.rest = []) :
    Ensures lx.next fun lx' => lx'.source = lx.source ∧ ∃ gap word, lx'.At read gap word :=
  (next_fresh_of_read hkind hsource hpos hstop hlast).mono fun _ ⟨hs, _, gap, word, h⟩ =>
    ⟨hs, gap, word, h.toAt⟩

/-- The end of what is read with a token that is not the end of the source. -/
theorem At.read_last (h : lx.At before gap word) :
    (∀ g ∈ (before ++ (gap ++ word)).getLast?, isLineEnd g.code = false) ∨ lx.cursor.rest = [] := by
  by_cases hword : word = []
  · obtain ⟨-, hrest⟩ | ⟨-, hgap⟩ := h.empty hword
    · exact .inr hrest
    · obtain hlast | hnil := h.before_last
      · exact .inl (by rwa [hword, hgap, List.append_nil, List.append_nil])
      · exact .inr (by simp_all)
  · refine .inl fun g hg => h.word_last g ?_
    rw [← List.append_assoc, List.getLast?_append] at hg
    cases hlast : word.getLast? with
    | none => exact absurd (List.getLast?_eq_none_iff.1 hlast) hword
    | some k => rw [hlast] at hg; exact hg

/-- What was read, with the gap and the token, is what has been read next. -/
theorem At.next (h : lx.At before gap word) : Ensures lx.next fun lx' =>
    lx'.source = lx.source ∧ ∃ gap' word', lx'.At (before ++ (gap ++ word)) gap' word' := by
  by_cases hkind : lx.token.kind = .invalid
  · have hother : isOther .invalid = true := by decide
    simp only [isOther, Bool.and_eq_true, Bool.not_eq_true', List.all_eq_true] at hother
    rw [Lexer.next, if_pos hkind]
    refine .ok ⟨rfl, [], [], ?_⟩
    exact
      { source := by simpa using h.source
        prevStop := h.stop
        start := by rw [List.append_nil]; exact h.stop
        stop := by rw [List.append_nil, List.append_nil]; exact h.stop
        pos := rfl
        raw := by simp [onto, Glyph.takeBytes]
        before_last := h.read_last
        word_head := by simp
        word_last := by simp
        isGap := .nil
        newline := by simp [onto]
        named := by simp [hother.1]
        spelled := fun s hs => by simpa using hother.2 _ hs
        empty := fun _ => .inr ⟨rfl, rfl⟩ }
  · exact next_at_of_read hkind (by simpa [List.append_assoc] using h.source)
      (h.pos.trans h.stop) h.stop h.read_last

/-- A token of punctuation consists of the characters of its spelling. -/
theorem At.word_eq (h : lx.At before gap word) {s : Text}
    (hs : (s, lx.token.kind) ∈ TokenKind.punctuators) : word = glyphs s := by
  have hcut := (glyphs_of_append (glyphs_of_append (glyphs_of_append h.source).2).2).1
  rw [← h.spelled s hs, h.raw, hcut]

theorem asciiGlyph_genuine {b : UInt8} (h : b.toNat < 128) : (asciiGlyph b).Genuine := by
  have hb : b < 0x80 := by simpa [UInt8.lt_iff_toNat_lt] using h
  simp [Glyph.Genuine, asciiGlyph, glyphs_cons, decode, hb]

/-- The current token is read again, from its first character on, which is in ASCII. -/
theorem At.reread (h : lx.At before gap word) {b : UInt8} {rest : List Glyph} {newline : Bool}
    {l : Lexeme} {word' : List Glyph} (hb : 14 ≤ b.toNat ∧ b.toNat < 128)
    (hrest : asciiGlyph b :: rest = word ++ lx.cursor.rest)
    (hnewline : newline = true → lx.token.prevStop = 0 ∨ hasLineEnd gap = true)
    (hl : l.Covers ⟨lx.token.start, asciiGlyph b :: rest⟩ word') :
    (lx.onto ⟨lx.token.start, asciiGlyph b :: rest⟩ newline lx.token.prevStop l).At before gap
      word' := by
  rw [h.prevStop] at hnewline ⊢
  refine at_onto (by rw [hrest]; exact h.source) h.start (by rw [hrest]; exact h.before_last)
    (by rw [hrest]; exact h.isGap) ?_ hnewline hl
  rintro g ⟨⟩
  exact isLineEnd_of_ascii hb.1 hb.2

/-- A regular expression starts with the slash of the current token, and may hold what else is in it. -/
theorem asRegExp_ok (h : lx.asRegExp = .ok lx') : ∃ c stop,
    c = (if lx.token.kind = .slashAssign then ⟨lx.token.start + 1, asciiGlyph 61 :: lx.cursor.rest⟩ else lx.cursor) ∧
      scanRegExp c = .ok stop ∧ lx' = lx.onto ⟨lx.token.start, asciiGlyph 47 :: c.rest⟩ lx.token.newlineBefore
        lx.token.prevStop { kind := .regExp, cursor := stop } := by
  revert lx' h
  show Ensures lx.asRegExp _
  unfold Lexer.asRegExp
  extract_lets c
  exact .bind_ok fun stop scanned => .ok ⟨c, stop, rfl, scanned, rfl⟩

/-- A template goes on where a brace is the current token. -/
theorem asTemplate_ok (h : lx.asTemplate = .ok lx') : lx.token.kind = .closeBrace ∧ ∃ kind units stop,
    scanQuoted lx.dialect 96 true lx.token.start lx.cursor = .ok (kind, units, stop) ∧
      lx' = lx.onto ⟨lx.token.start, asciiGlyph 125 :: lx.cursor.rest⟩ (lx.token.start = 0) lx.token.prevStop
        { kind, units, cursor := stop } := by
  revert lx' h
  show Ensures lx.asTemplate _
  unfold Lexer.asTemplate
  exact .forbid fun hkind => .bind_ok fun (kind, units, stop) scanned => .ok
    ⟨not_not.1 hkind, kind, units, stop, scanned, rfl⟩

/-- A slash that is read again as a regular expression stays at its start. -/
theorem At.asRegExp (h : lx.At before gap word)
    (hkind : lx.token.kind = .slash ∨ lx.token.kind = .slashAssign) :
    Ensures lx.asRegExp fun lx' => lx'.source = lx.source ∧ ∃ word', lx'.At before gap word' := by
  intro lx' hlx'
  obtain ⟨c, stop, hc_eq, scanned, rfl⟩ := asRegExp_ok hlx'
  -- the characters of the token and what follows, from the slash on
  obtain ⟨hpos, hrest, hc⟩ : c.pos = lx.token.start + 1 ∧
      asciiGlyph 47 :: c.rest = word ++ lx.cursor.rest ∧ c.Genuine := by
    obtain hkind | hkind := hkind
    · have hword := h.word_eq (s := [47]) (by rw [hkind]; decide)
      simp only [hc_eq, hkind, reduceCtorEq, if_false]
      exact ⟨by rw [h.pos, h.stop_eq_add, hword]; rfl, by rw [hword]; rfl, h.genuine⟩
    · have hword := h.word_eq (s := [47, 61]) (by rw [hkind]; decide)
      simp only [hc_eq, hkind, if_true]
      refine ⟨trivial, by rw [hword]; rfl, ?_⟩
      intro g hg
      obtain rfl | hg := List.mem_cons.1 hg
      · exact asciiGlyph_genuine (by decide)
      · exact h.genuine g hg
  have hstop := scanRegExp_passes hc stop scanned
  have hpass : Passes ⟨lx.token.start, asciiGlyph 47 :: c.rest⟩ stop :=
    .cons_ascii (asciiGlyph_genuine (by decide)) (by decide) (by rw [← hpos]; exact hstop)
  obtain ⟨word', hword'⟩ := exists_covers_of_isOther (k := .regExp)
    (l := { kind := .regExp, cursor := stop }) hpass rfl (by decide)
  exact ⟨rfl, word', h.reread (by decide) hrest h.newline hword'⟩

/-- A brace that is read again as the rest of a template stays at its start. -/
theorem At.asTemplate (h : lx.At before gap word) :
    Ensures lx.asTemplate fun lx' => lx'.source = lx.source ∧ ∃ word', lx'.At before gap word' := by
  intro lx' hlx'
  obtain ⟨hkind, kind, units, stop, scanned, rfl⟩ := asTemplate_ok hlx'
  have hword := h.word_eq (s := [125]) (by rw [hkind]; decide)
  have hpos : lx.token.start + 1 = lx.cursor.pos := by
    rw [h.pos, h.stop_eq_add, hword]
    rfl
  obtain ⟨hpass, closing, hclosing⟩ := scanQuoted_passes (by omega) h.genuine _ scanned
  -- the brace belongs to the token that is read again
  have hpass' : Passes ⟨lx.token.start, asciiGlyph 125 :: lx.cursor.rest⟩ stop := by
    refine .cons_ascii (asciiGlyph_genuine (by decide)) (by decide) ?_
    rwa [hpos]
  obtain ⟨word', hword'⟩ := exists_covers_of_isOther
    (l := { kind, units, cursor := stop }) hpass' hclosing (by cases closing <;> decide)
  refine ⟨rfl, word', h.reread (by decide) (by rw [hword]; rfl) (fun hzero => .inl ?_) hword'⟩
  have hle := h.places_le.1
  simp only [decide_eq_true_eq] at hzero
  omega

/-! ### All that reading a source meets -/

/-- The lexers that reading a source can meet. -/
inductive Met (s : Source) : Lexer → Prop where
  | start {lx : Lexer} (h : Lexer.start s .script = .ok lx) : Met s lx
  | next {lx lx' : Lexer} (hlx : Met s lx) (h : lx.next = .ok lx') : Met s lx'
  | regExp {lx lx' : Lexer} (hlx : Met s lx)
      (hkind : lx.token.kind = .slash ∨ lx.token.kind = .slashAssign)
      (h : lx.asRegExp = .ok lx') : Met s lx'
  | template {lx lx' : Lexer} (hlx : Met s lx) (h : lx.asTemplate = .ok lx') : Met s lx'

variable {s : Source}

/-- Wherever reading a source leads, the lexer cuts the source in four. -/
theorem Met.exists_at (h : Met s lx) : lx.source = s ∧ ∃ before gap word, lx.At before gap word := by
  induction h with
  | start h =>
      obtain ⟨hsource, hat⟩ := @next_at_of_read _ [] (by simp) rfl rfl rfl (.inl (by simp)) _ h
      exact ⟨hsource, [], hat⟩
  | next _ h ih =>
      obtain ⟨hs, before, gap, word, hat⟩ := ih
      obtain ⟨hsource, hat'⟩ := hat.next _ h
      exact ⟨hsource.trans hs, _, hat'⟩
  | regExp _ hkind h ih =>
      obtain ⟨hs, before, gap, word, hat⟩ := ih
      obtain ⟨hsource, word', hat'⟩ := hat.asRegExp hkind _ h
      exact ⟨hsource.trans hs, _, _, word', hat'⟩
  | template _ h ih =>
      obtain ⟨hs, before, gap, word, hat⟩ := ih
      obtain ⟨hsource, word', hat'⟩ := hat.asTemplate _ h
      exact ⟨hsource.trans hs, _, _, word', hat'⟩

/-- The places that a token tells are in order, and within the source. -/
theorem Met.places_le (h : Met s lx) : lx.token.prevStop ≤ lx.token.start ∧
    lx.token.start ≤ lx.token.stop ∧ lx.token.stop ≤ s.contents.length := by
  obtain ⟨rfl, before, gap, word, hat⟩ := h.exists_at
  exact hat.places_le

/-- A token that is read has at least one character. -/
theorem Met.start_lt_stop (h : Met s lx) (heof : lx.token.kind ≠ .endOfFile)
    (hinvalid : lx.token.kind ≠ .invalid) : lx.token.start < lx.token.stop := by
  obtain ⟨-, before, gap, word, hat⟩ := h.exists_at
  refine hat.start_lt_stop fun hword => ?_
  simpa [heof, hinvalid] using hat.empty hword

theorem prevStop_of_next (h : lx.next = .ok lx') : lx'.token.prevStop = lx.token.stop := by
  have hnext : Ensures lx.next fun lx' => lx'.token.prevStop = lx.token.stop := by
    unfold next
    extract_lets prev
    split
    · exact .ok rfl
    · exact .bind_ok fun r _ =>
        .bind_ok fun l _ => .ok rfl
  exact hnext _ h

/-- The name of a token is an identifier if the token is a name. -/
theorem Met.named (h : Met s lx) (hname : lx.token.kind.isName = true) :
    isIdentifier lx.token.name = true := by
  obtain ⟨-, before, gap, word, hat⟩ := h.exists_at
  exact hat.named hname

/-- A brace takes one byte. -/
theorem Met.openBrace_stop (h : Met s lx) (hkind : lx.token.kind = .openBrace) :
    lx.token.stop = lx.token.start + 1 := by
  obtain ⟨-, before, gap, word, hat⟩ := h.exists_at
  have hword := hat.word_eq (s := [123]) (by rw [hkind]; decide)
  rw [hat.stop_eq_add, hword]
  rfl

end Lexer

/-! ### Seams -/

/-- The text can be cut at an offset: no character stands on both sides of it, and no line terminator
on each side. -/
def Text.Seam (t : Text) (n : Nat) : Prop :=
  ∃ before after, Utf8.glyphs t = before ++ after ∧ n = (Utf8.bytesOf before).length ∧
    ((∀ g ∈ before.getLast?, isLineEnd g.code = false) ∨
      ∀ g ∈ after.head?, isLineEnd g.code = false)

namespace Lexer

variable {s : Source} {lx : Lexer}

/-- The text may be cut where the token before ends. -/
theorem Met.seam_prevStop (h : Met s lx) : s.contents.Seam lx.token.prevStop := by
  obtain ⟨rfl, before, gap, word, hat⟩ := h.exists_at
  refine ⟨before, _, hat.source, hat.prevStop, hat.before_last.imp_right fun hnil => ?_⟩
  rw [hnil]
  simp

/-- The text may be cut where a token starts. -/
theorem Met.seam_start (h : Met s lx) : s.contents.Seam lx.token.start := by
  obtain ⟨rfl, before, gap, word, hat⟩ := h.exists_at
  refine ⟨before ++ gap, word ++ lx.cursor.rest, by rw [hat.source, List.append_assoc], hat.start, ?_⟩
  cases word with
  | nil =>
      obtain ⟨-, hrest⟩ | ⟨-, hgap⟩ := hat.empty rfl
      · exact .inr (by simp [hrest])
      · obtain hlast | hnil := hat.before_last
        · exact .inl (by rwa [hgap, List.append_nil])
        · exact .inr (by simp_all)
  | cons g word => exact .inr (by simpa using hat.word_head)

/-- The text may be cut where a token ends. -/
theorem Met.seam_stop (h : Met s lx) : s.contents.Seam lx.token.stop := by
  obtain ⟨rfl, before, gap, word, hat⟩ := h.exists_at
  refine ⟨before ++ (gap ++ word), lx.cursor.rest, by simp [hat.source], hat.stop,
    hat.read_last.imp_right fun hnil => ?_⟩
  rw [hnil]
  simp

end Lexer

end ModuleSystem
