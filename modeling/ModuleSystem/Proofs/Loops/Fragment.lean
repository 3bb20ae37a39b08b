import ModuleSystem.Proofs.Loops.Notices
import ModuleSystem.Proofs.Loops.Scan

/-!
# Scanning statement trees

What the scanner makes of the text of a statement without notices, wherever it stands between
statements and whatever follows: it gets past the text, back to where a statement may start, with the
same open frames, and the outline has gained the loops of the statement and some names
(`Spot.Passed`, `passed_tree`, `passed_trees`).

* The head of a loop notes the place of the body, and whether it is a block, once the first token of
  the body is read; so between two tokens the outline depends on the next one.
-/

namespace ModuleSystem.Loops

open Scanner
open Lexer (after wordToken markToken ascii asciiGlyph)

/-! ### Places between statements -/

/-- A place after a token where a statement may start. -/
structure Spot where
  token : Token
  /-- The characters after the token. -/
  rest : List Glyph
  /-- The outline so far, which may depend on the next token. -/
  outline : Token → Outline
  top : Frame
  below : List Frame
  prev : TokenKind
  last : Frame
  past : Past token
  ground : Ground top
  ready : Ready prev last

variable {s : Source} {p q r : Spot} {rest rest' : List Glyph} {m n : Nat}

namespace Spot

/-- The scanner goes on from a place. -/
def resume (s : Source) (fuel : Nat) (p : Spot) : Except Fault Scanner :=
  Scanner.resume fuel s p.token p.rest p.outline p.top p.below p.prev p.last

/-- The scanner comes from one place to another, over a text of at most `n` tokens. -/
def Runs (s : Source) (p : Spot) (n : Nat) (q : Spot) : Prop :=
  ∃ m ≤ n, ∀ fuel, resume s (fuel + m) p = resume s fuel q

theorem Runs.refl (s : Source) (p : Spot) : Runs s p 0 p := ⟨0, le_refl 0, fun _ => rfl⟩

/-- Running on from where one has got to. -/
theorem Runs.trans (h : Runs s p m q) (h' : Runs s q n r) : Runs s p (m + n) r := by
  obtain ⟨k, hk, h⟩ := h
  obtain ⟨k', hk', h'⟩ := h'
  refine ⟨k + k', by omega, fun fuel => ?_⟩
  rw [← h' fuel, ← h (fuel + k'), Nat.add_right_comm, Nat.add_assoc]

/-- The scanner gets past `n` bytes, and the open frames are the same again. -/
structure Passed (s : Source) (p : Spot) (n : Nat) (rest : List Glyph) (q : Spot) : Prop where
  rest : q.rest = rest
  stop : q.token.stop = p.token.stop + n
  top : q.top = p.top
  below : q.below = p.below
  runs : Runs s p n q

/-- Two parts that are passed one after the other are passed. -/
theorem Passed.trans (h : Passed s p m rest q) (h' : Passed s q n rest' r) :
    Passed s p (m + n) rest' r where
  rest := h'.rest
  stop := by rw [h'.stop, h.stop, Nat.add_assoc]
  top := h'.top.trans h.top
  below := h'.below.trans h.below
  runs := h.runs.trans h'.runs

theorem Passed.of_eq (h : Passed s p m rest q) (heq : m = n) : Passed s p n rest q := heq ▸ h

end Spot

/-! ### Beginnings of statements -/

/-- Some blanks. -/
abbrev blanks (k : Nat) : List Glyph := ascii (List.replicate k 32)

/-- A call is passed in four tokens, and mentions what it calls. -/
theorem passed_call (p : Spot) (k : Nat) (hp : p.rest = blanks k ++ (ascii Head.call.text ++ rest)) :
    ∃ q, p.Passed s (k + 4) rest q ∧
      q.outline = fun _ => named (p.outline (wordToken p.token k [102])) [102] := by
  obtain ⟨t, last, hpast, hstop, hrun⟩ := @resume_call p.top p.last p.below p.prev s _ p.outline rest p.past k
    p.ground p.ready
  refine ⟨⟨t, rest, _, p.top, p.below, .semicolon, last, hpast, p.ground, ⟨by decide, by decide, by simp⟩⟩,
    ⟨rfl, hstop, rfl, rfl, 4, by omega, fun fuel => ?_⟩, rfl⟩
  rw [Spot.resume, hp]
  exact hrun fuel

/-- An `if` is passed with its condition, which it mentions. -/
theorem passed_cond (p : Spot) (k : Nat)
    (hp : p.rest = blanks k ++ (ascii (Head.test .variable).text ++ rest)) :
    ∃ q, p.Passed s (k + 6) (blanks 1 ++ rest) q ∧
      q.outline = fun _ => named (p.outline (wordToken p.token k [105, 102])) [97] := by
  obtain ⟨t, last, hpast, hstop, hready, hrun⟩ := @resume_cond p.top p.last p.below p.prev s _ p.outline
    (blanks 1 ++ rest) p.past k p.ground p.ready
  refine ⟨⟨t, blanks 1 ++ rest, _, p.top, p.below, .closeParen, last, hpast, p.ground, hready⟩,
    ⟨rfl, hstop, rfl, rfl, 4, by omega, fun fuel => ?_⟩, rfl⟩
  rw [Spot.resume, hp]
  exact hrun fuel

/-- The head of a loop is passed, and the loop is noted with the token behind it. -/
theorem passed_loop (p : Spot) (k : Nat) (hp : p.rest = blanks k ++ (ascii Head.loop.text ++ rest)) :
    ∃ q, p.Passed s (k + 13) (blanks 1 ++ rest) q ∧
      q.outline = looped (p.outline (wordToken p.token k [102, 111, 114])) (p.token.stop + k + 5) := by
  obtain ⟨t, last, hpast, hstop, hready, hrun⟩ := @resume_loop p.top p.last p.below p.prev s _ p.outline
    (blanks 1 ++ rest) p.past k p.ground p.ready
  refine ⟨⟨t, blanks 1 ++ rest, _, p.top, p.below, .closeParen, last, hpast, p.ground, hready⟩,
    ⟨rfl, hstop, rfl, rfl, 6, by omega, fun fuel => ?_⟩, rfl⟩
  rw [Spot.resume, hp]
  exact hrun fuel

/-- An `else` is passed. -/
theorem passed_otherwise (p : Spot) {o : Outline} (ho : p.outline = fun _ => o)
    (hp : p.rest = ascii otherwise ++ rest) :
    ∃ q, p.Passed s 5 (blanks 1 ++ rest) q ∧ q.outline = fun _ => o := by
  obtain ⟨t, hpast, hstop, hready, hrun⟩ := @resume_else p.top p.last p.below p.prev s _ p.outline rest p.past 1
    p.ground p.ready
  refine ⟨⟨t, blanks 1 ++ rest, fun _ => o, p.top, p.below, .kwElse, p.last, hpast, p.ground, hready⟩,
    ⟨rfl, hstop, rfl, rfl, 1, by omega, fun fuel => ?_⟩, rfl⟩
  rw [ho] at hrun
  rw [Spot.resume, hp, ho]
  exact hrun fuel

theorem length_brace : Head.brace.text.length = 1 := rfl

theorem length_closing : closing.length = 1 := rfl

theorem length_test : (Head.test .variable).text.length = 7 := rfl

theorem length_loop : Head.loop.text.length = 14 := rfl

theorem length_otherwise : otherwise.length = 6 := rfl

/-- The frame of a block. -/
theorem ground_block (start writeCount : Nat) : Ground { kind := .block, start, writeCount } :=
  ⟨.inr rfl, rfl, rfl, rfl, rfl, rfl⟩

/-- A block opens. -/
theorem runs_brace (p : Spot) (k : Nat) (hp : p.rest = blanks k ++ (ascii Head.brace.text ++ rest)) :
    ∃ q, p.Runs s (k + 1) q ∧ q.rest = rest ∧ q.token.stop = p.token.stop + (k + 1) ∧ q.top.kind = .block ∧
      q.below = p.top :: p.below ∧ q.outline = fun _ => p.outline (markToken p.token k 123 .openBrace) := by
  refine ⟨⟨markToken p.token k 123 .openBrace, rest, fun _ => p.outline (markToken p.token k 123 .openBrace),
    _, p.top :: p.below, .openBrace, p.last, past_mark rfl k,
    ground_block (p.token.stop + k) (p.outline (markToken p.token k 123 .openBrace)).writes.length,
    ⟨by decide, by decide, by simp⟩⟩, ⟨1, by omega, fun fuel => ?_⟩, rfl, rfl, rfl, rfl, rfl⟩
  rw [Spot.resume, hp]
  exact going_openBrace p.past k fuel p.ground p.ready

/-- A block closes. -/
theorem runs_closing (p : Spot) {o : Outline} (ho : p.outline = fun _ => o) (hkind : p.top.kind = .block)
    {f : Frame} (hf : Ground f) {below : List Frame} (hbelow : p.below = f :: below)
    (hp : p.rest = ascii closing ++ rest) :
    ∃ q, p.Runs s 1 q ∧ q.rest = rest ∧ q.token.stop = p.token.stop + 1 ∧ q.top = f ∧ q.below = below ∧
      q.outline = fun _ => o := by
  refine ⟨⟨markToken p.token 0 125 .closeBrace, rest, fun _ => o, f, below, .closeBrace, p.top, past_mark rfl 0,
    hf, ⟨by decide, by decide, by simp⟩⟩, ⟨1, le_refl 1, fun fuel => ?_⟩, rfl, rfl, rfl, rfl, rfl⟩
  rw [Spot.resume, hp, ho, hbelow]
  exact going_closeBrace p.past 0 fuel p.ground hkind hf p.ready.dot rfl

/-! ### Outlines that gain loops -/

/-- The outline has gained some loops, and names among the words of the statements. -/
def Noted (o : Outline) (loops : List LoopWrite) (o' : Outline) : Prop :=
  ∃ names : List Text, (∀ n ∈ names, n ∈ lexicon.map Prod.fst) ∧
    o' = { o with loopWrites := o.loopWrites ++ loops, usedNames := names ++ o.usedNames }

variable {o o' o'' : Outline} {ls ls' : List LoopWrite}

theorem Noted.refl (o : Outline) : Noted o [] o := ⟨[], by simp, by simp⟩

/-- Loops that are noted one part after the other. -/
theorem Noted.trans (h : Noted o ls o') (h' : Noted o' ls' o'') : Noted o (ls ++ ls') o'' := by
  obtain ⟨ns, hns, rfl⟩ := h
  obtain ⟨ns', hns', rfl⟩ := h'
  refine ⟨ns' ++ ns, fun n hn => (List.mem_append.1 hn).elim (hns' n) (hns n), ?_⟩
  simp only [List.append_assoc]

/-- Mentioning a name notes no loop. -/
theorem noted_named (o : Outline) {w : Text} (hw : w ∈ lexicon.map Prod.fst) : Noted o [] (named o w) :=
  ⟨[w], by simpa using hw, by simp [named]⟩

/-- A loop is noted where its body starts. -/
theorem noted_looped (o : Outline) (start : Nat) (next : Token) :
    Noted o [⟨[⟨[120], start⟩], next.start, next.kind == .openBrace, false⟩] (looped o start next) := by
  refine ⟨[[120, 115], [111, 102], [120]], by decide, ?_⟩
  simp [looped, loopNoted, named]

namespace Tree

mutual

/-- The loops of a statement that starts at an offset. -/
def loops (start : Nat) : Tree → List LoopWrite
  | .call | .notice => []
  | .block ts => loopsAll (start + 1) ts
  | .ifThen c s => s.loops (start + (Head.test c).text.length)
  | .ifElse c s e =>
    s.loops (start + (Head.test c).text.length) ++
      e.loops (start + (Head.test c).text.length + s.text.length + otherwise.length)
  | .forOf s =>
    ⟨[⟨[120], start + 5⟩], start + Head.loop.text.length, s.isBlock, false⟩ ::
      s.loops (start + Head.loop.text.length)

/-- The loops of statements that start at an offset. -/
def loopsAll (start : Nat) : List Tree → List LoopWrite
  | [] => []
  | t :: ts => t.loops start ++ loopsAll (start + t.text.length) ts

end

end Tree

/-! ### Statements -/

/-- The scanner gets past a statement, and the outline gains its loops. The outline before may depend on
the first token of the statement. -/
structure PassedTree (s : Source) (p : Spot) (k : Nat) (t : Tree) (rest : List Glyph) (q : Spot)
    (next : Token) (o : Outline) : Prop where
  passed : p.Passed s (k + t.text.length) rest q
  outline : q.outline = fun _ => o
  start : next.start = p.token.stop + k
  isBlock : (next.kind == .openBrace) = t.isBlock
  noted : Noted (p.outline next) (t.loops (p.token.stop + k)) o

/-- A word starts no block. -/
theorem word_isBlock {w : Text} {m : TokenKind} (h : (w, m) ∈ lexicon) (t : Token) (k : Nat) :
    ((wordToken t k w).kind == .openBrace) = false := by
  have hkinds : ∀ p ∈ lexicon, (p.2 == .openBrace) = false := by decide
  show (Lexer.nameKind w == .openBrace) = false
  rw [nameKind_of_mem h]
  exact hkinds _ h

mutual

/-- Each statement is passed, and its loops are noted. -/
theorem passed_tree (t : Tree) (ht : t.plain = true) (p : Spot) (k : Nat) (rest : List Glyph)
    (hp : p.rest = blanks k ++ (ascii t.text ++ rest)) :
    ∃ q next o, PassedTree s p k t rest q next o := by
  match t with
  | .call =>
    obtain ⟨q, hq, ho⟩ := passed_call (s := s) p k hp
    exact ⟨q, _, _, hq, ho, rfl, word_isBlock (m := .identifier) (by decide) _ _,
      noted_named _ (by decide)⟩
  | .notice => cases ht
  | .block ts =>
    rw [Tree.text, Lexer.ascii_append, Lexer.ascii_append, List.append_assoc, List.append_assoc] at hp
    -- the opening brace, the statements in its frame, and the closing brace, which comes back to this one
    obtain ⟨q₁, hq₁, hrest₁, hstop₁, hkind, hbelow, ho₁⟩ := runs_brace (s := s) p k hp
    obtain ⟨q₂, o₂, hq₂, ho₂, hnoted⟩ := passed_trees ts ht q₁ ho₁ _ hrest₁
    obtain ⟨q₃, hq₃, hrest₃, hstop₃, htop, hbelow', ho₃⟩ := runs_closing (s := s) q₂ ho₂
      (by rw [hq₂.top]; exact hkind) p.ground (by rw [hq₂.below]; exact hbelow) hq₂.rest
    rw [hstop₁] at hnoted
    have hlength : k + 1 + (Tree.textAll ts).length + 1 = k + (Tree.block ts).text.length := by
      simp only [Tree.text, List.length_append, length_brace, length_closing]
      omega
    refine ⟨q₃, markToken p.token k 123 .openBrace, o₂, ⟨hrest₃, ?_, htop, hbelow', ?_⟩, ho₃, rfl, rfl, hnoted⟩
    · rw [hstop₃, hq₂.stop, hstop₁, ← hlength, Nat.add_assoc, Nat.add_assoc, Nat.add_assoc (k + 1)]
    · exact hlength ▸ (hq₁.trans hq₂.runs).trans hq₃
  | .ifThen c s' =>
    simp only [Tree.plain, Bool.and_eq_true, decide_eq_true_eq] at ht
    obtain ⟨rfl, ht⟩ := ht
    rw [Tree.text, Lexer.ascii_append, List.append_assoc] at hp
    obtain ⟨q, hq, ho⟩ := passed_cond (s := s) p k hp
    obtain ⟨q', next', o', h⟩ := passed_tree s' ht q 1 rest hq.rest
    have hnoted := h.noted
    rw [ho, hq.stop] at hnoted
    refine ⟨q', wordToken p.token k [105, 102], o', (hq.trans h.passed).of_eq ?_, h.outline, rfl,
      word_isBlock (m := .kwIf) (by decide) _ _, (noted_named _ (by decide +kernel)).trans hnoted⟩
    rw [Tree.text, List.length_append, length_test]
    omega
  | .ifElse c s' e =>
    simp only [Tree.plain, Bool.and_eq_true, decide_eq_true_eq] at ht
    obtain ⟨⟨rfl, hs⟩, he⟩ := ht
    simp only [Tree.text, Lexer.ascii_append, List.append_assoc] at hp
    obtain ⟨q₁, hq₁, ho₁⟩ := passed_cond (s := s) p k hp
    obtain ⟨q₂, next₂, o₂, h₂⟩ := passed_tree s' hs q₁ 1 _ hq₁.rest
    obtain ⟨q₃, hq₃, ho₃⟩ := passed_otherwise (s := s) q₂ h₂.outline h₂.passed.rest
    obtain ⟨q₄, next₄, o₄, h₄⟩ := passed_tree e he q₃ 1 rest hq₃.rest
    -- the loops of each part are noted from where the part before has stopped
    have hnoted₂ := h₂.noted
    have hnoted₄ := h₄.noted
    rw [ho₁, hq₁.stop] at hnoted₂
    rw [ho₃, hq₃.stop, h₂.passed.stop, hq₁.stop] at hnoted₄
    refine ⟨q₄, wordToken p.token k [105, 102], o₄,
      (((hq₁.trans h₂.passed).trans hq₃).trans h₄.passed).of_eq ?_, h₄.outline, rfl,
      word_isBlock (m := .kwIf) (by decide) _ _, ?_⟩
    · simp only [Tree.text, List.length_append, length_test, length_otherwise]
      omega
    · have hstart : p.token.stop + (k + 6) + (1 + s'.text.length) + 5 + 1 =
          p.token.stop + k + 7 + s'.text.length + 6 := by omega
      rw [hstart] at hnoted₄
      exact (noted_named _ (by decide)).trans (hnoted₂.trans hnoted₄)
  | .forOf s' =>
    rw [Tree.text, Lexer.ascii_append, List.append_assoc] at hp
    obtain ⟨q, hq, ho⟩ := passed_loop (s := s) p k hp
    obtain ⟨q', next', o', h⟩ := passed_tree s' ht q 1 rest hq.rest
    have hnoted := h.noted
    -- the loop itself is noted before the loops of its body
    have hloop := noted_looped (p.outline (wordToken p.token k [102, 111, 114])) (p.token.stop + k + 5) next'
    rw [ho, hq.stop] at hnoted
    rw [h.start, h.isBlock, hq.stop] at hloop
    refine ⟨q', wordToken p.token k [102, 111, 114], o', (hq.trans h.passed).of_eq ?_, h.outline, rfl,
      word_isBlock (m := .kwFor) (by decide) _ _, hloop.trans hnoted⟩
    rw [Tree.text, List.length_append, length_loop]
    omega

/-- So are statements one after the other. -/
theorem passed_trees (ts : List Tree) (hts : Tree.plainAll ts = true) (p : Spot) {o : Outline}
    (ho : p.outline = fun _ => o) (rest : List Glyph) (hp : p.rest = ascii (Tree.textAll ts) ++ rest) :
    ∃ q o', p.Passed s (Tree.textAll ts).length rest q ∧ q.outline = (fun _ => o') ∧
      Noted o (Tree.loopsAll p.token.stop ts) o' := by
  match ts with
  | [] => exact ⟨p, o, ⟨hp, rfl, rfl, rfl, .refl s p⟩, ho, .refl o⟩
  | t :: ts =>
    simp only [Tree.plainAll, Bool.and_eq_true] at hts
    rw [Tree.textAll, Lexer.ascii_append, List.append_assoc] at hp
    obtain ⟨q, next, o₁, h⟩ := passed_tree t hts.1 p 0 _ hp
    obtain ⟨q', o', hq', ho', hnoted⟩ := passed_trees ts hts.2 q h.outline rest h.passed.rest
    have hfirst := h.noted
    rw [ho] at hfirst
    rw [h.passed.stop, Nat.zero_add] at hnoted
    refine ⟨q', o', (h.passed.trans hq').of_eq ?_, ho', hfirst.trans hnoted⟩
    rw [Tree.textAll, List.length_append, Nat.zero_add]

end

end ModuleSystem.Loops
