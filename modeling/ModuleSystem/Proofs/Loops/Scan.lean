import ModuleSystem.Outline.Scan
import ModuleSystem.Proofs.Lexer.Ascii

/-!
# Scanning the words and marks of loops

What the scanner does at each word and mark of a program of loops, outside of functions and with no
write or declaration under way (`state`), and what it makes of the beginnings of statements.

* `stepKind_if`, `stepKind_openParen`, …: one step at a token of a kind.
* `going_word`, `going_mark`: one step at a token that follows in the text.
* `resume_call`, `resume_cond`, `resume_else`, `resume_loop`: the beginnings of statements.
-/

namespace ModuleSystem.Scanner

open Lexer (after wordToken markToken ascii asciiGlyph)

/-- A scanner outside of functions, with no write or declaration under way. -/
def state (lx : Lexer) (o : Outline) (top : Frame) (below : List Frame) (prev : TokenKind)
    (exprAllowed : Bool) (left : Leftover) (last : Frame) : Scanner :=
  { lexer := lx, outline := o, top, below, prev, exprAllowed, left, lastClosed := last }

variable {lx : Lexer} {o : Outline} {top last : Frame} {below : List Frame} {prev : TokenKind}
  {exprAllowed : Bool} {left : Leftover}

/-- A step in which nothing is left to settle handles the current token. -/
theorem step_state (hshorthand : top.shorthand = none) (hkind : top.kind ≠ .bracket ∧ top.kind ≠ .object)
    (hloop : top.isForHead = false ∨ top.loopTargets.isEmpty = false ∨
      (lx.token.kind ≠ .kwIn ∧ lx.token.isWord "of" = false))
    (hline : lx.token.newlineBefore = false ∨ exprAllowed = true) (hprev : prev ≠ .dot ∧ prev ≠ .questionDot)
    (hkey : left.keyPosition = false) :
    (state lx o top below prev exprAllowed left last).step =
      (state lx o top below prev exprAllowed {} last).stepKind left := by
  have hsettled : (lx.token.newlineBefore && !exprAllowed) = false := by
    obtain h | h := hline <;> simp [h]
  have hnote : (top.isForHead && top.loopTargets.isEmpty &&
      (decide (lx.token.kind = .kwIn) || lx.token.isWord "of")) = false := by
    obtain h | h | h := hloop
    · simp [h]
    · simp [h]
    · simp [h]
  unfold step
  simp only [state, settleUpdate, settleShorthand, hshorthand, collectTargets, hkind, decide_false,
    Bool.or_self, Bool.false_and, Bool.false_eq_true, reduceIte, noteLoop, token, hnote, settleLet,
    settleLine, hsettled, hprev, hkey]

/-- The parenthesis behind `if` belongs to the statement. -/
theorem stepKind_if (h : lx.token.kind = .kwIf) :
    (state lx o top below prev exprAllowed {} last).stepKind left = lx.next >>= fun lx' =>
      .ok (state lx' o top below .kwIf true { nextParen := .statement } last) := by
  simp only [stepKind, token, state, h]
  simp only [leave, next, advance, token, h]
  cases lx.next <;> rfl

/-- The parenthesis behind `for` is the head of a loop. -/
theorem stepKind_for (h : lx.token.kind = .kwFor) :
    (state lx o top below prev exprAllowed {} last).stepKind left = lx.next >>= fun lx' =>
      .ok (state lx' o top below .kwFor true { nextParen := .forHead } last) := by
  simp only [stepKind, token, state, h]
  simp only [leave, next, advance, token, h]
  cases lx.next <;> rfl

/-- A statement starts behind `else`. -/
theorem stepKind_else (h : lx.token.kind = .kwElse) :
    (state lx o top below prev exprAllowed {} last).stepKind left = lx.next >>= fun lx' =>
      .ok (state lx' o top below .kwElse true { stmtStart := true } last) := by
  simp only [stepKind, token, state, h]
  simp only [leave, next, advance, token, h]
  cases lx.next <;> rfl

/-- The frame of a parenthesis. -/
def parenFrame (use : ParenUse) (start writeCount : Nat) : Frame :=
  { kind := if use = .none then .paren else .parenStatement
    isForHead := use = .forHead
    start
    writeCount }

/-- A parenthesis opens a frame, whose use the token before it tells. -/
theorem stepKind_openParen (h : lx.token.kind = .openParen) :
    (state lx o top below prev exprAllowed {} last).stepKind left = lx.next >>= fun lx' =>
      .ok (state lx' o (parenFrame left.nextParen lx.token.start o.writes.length) (top :: below) .openParen
        true {} last) := by
  simp only [stepKind, token, state, h]
  simp only [push, next, advance, token, h]
  cases left.nextParen <;> cases lx.next <;> rfl

/-- The outline after the head of a loop, whose body starts with the given token. -/
def loopNoted (o : Outline) (targets : List Binding) (t : Token) : Outline :=
  if targets.isEmpty then o
  else { o with loopWrites := o.loopWrites ++ [⟨targets, t.start, t.kind == .openBrace, false⟩] }

theorem next_state (expr : Bool) :
    (state lx o top below prev exprAllowed left last).next expr = lx.next >>= fun lx' =>
      .ok (state lx' o top below lx.token.kind expr left last) := by
  simp only [next, advance, state, token]
  cases lx.next <;> rfl

theorem closeWrites_state (depth : Nat) :
    (state lx o top below prev exprAllowed left last).closeWrites depth =
      state lx o top below prev exprAllowed left last := rfl

/-- A bracket closes the frame that it belongs to. -/
theorem close_state (h : top.kind.closer = lx.token.kind) (f : Frame) :
    (state lx o top (f :: below) prev exprAllowed left last).close =
      .ok (state lx o f below prev exprAllowed left top) := by
  unfold close
  rw [if_neg (by simp [state, token, h])]
  rw [closeWrites_state]
  unfold state pop
  dsimp only
  by_cases hf : top.kind = .functionBody
  · rw [if_pos hf]
  · rw [if_neg hf]

/-- A closing parenthesis notes the loop whose head it ends. -/
theorem stepKind_closeParen (h : lx.token.kind = .closeParen) (hclose : top.kind.closer = .closeParen)
    (f : Frame) :
    (state lx o top (f :: below) prev exprAllowed {} last).stepKind left = lx.next >>= fun lx' =>
      .ok (state lx' (loopNoted o top.loopTargets lx'.token) f below .closeParen
        (top.kind == .parenStatement) { stmtStart := top.kind == .parenStatement } top) := by
  have hstep : (state lx o top (f :: below) prev exprAllowed {} last).stepKind left =
      (state lx o top (f :: below) prev exprAllowed {} last).stepCloseParen := by
    simp only [stepKind, token, state, h]
  rw [hstep, stepCloseParen, close_state (hclose.trans h.symm), ok_bind]
  dsimp only
  rw [next_state, h, bind_assoc]
  congr
  funext lx'
  unfold loopNoted
  cases hempty : top.loopTargets.isEmpty <;> simp only [ok_bind, state, hempty, leave] <;> rfl

/-- A semicolon ends the statement. -/
theorem stepKind_semicolon (h : lx.token.kind = .semicolon) (hkind : top.kind.holdsStatements = true) :
    (state lx o top below prev exprAllowed {} last).stepKind left = lx.next >>= fun lx' =>
      .ok (state lx' o { top with decl := {}, ternaries := 0 } below .semicolon true { stmtStart := true }
        last) := by
  have hclass : top.kind ≠ .classBody := by
    intro hclass
    rw [hclass] at hkind
    cases hkind
  have hstep : (state lx o top below prev exprAllowed {} last).stepKind left =
      (state lx o top below prev exprAllowed {} last).endStatement.next true >>= fun p =>
        .ok (p.leave fun l => { l with
          stmtStart := p.top.kind.holdsStatements, keyPosition := p.top.kind = .classBody }) := by
    simp only [stepKind, token, state, h]
    rfl
  have hend : (state lx o top below prev exprAllowed {} last).endStatement =
      state lx o { top with decl := {}, ternaries := 0 } below prev exprAllowed {} last := rfl
  rw [hstep, hend, next_state, h, bind_assoc]
  congr
  funext lx'
  simp only [ok_bind, state, leave, hkind, hclass, decide_false]

/-- Where a statement may start a brace opens a block. -/
theorem stepKind_openBrace (h : lx.token.kind = .openBrace)
    (hprev : prev ≠ .equalsGreaterThan ∧ (prev = .closeParen → last.kind ≠ .paren))
    (hleft : left.stmtStart = true) :
    (state lx o top below prev exprAllowed {} last).stepKind left = lx.next >>= fun lx' =>
      .ok (state lx' o { kind := .block, start := lx.token.start, writeCount := o.writes.length }
        (top :: below) .openBrace true { stmtStart := true } last) := by
  have hframe : (state lx o top below prev exprAllowed {} last).braceFrame true =
      ({ kind := .block }, state lx o top below prev exprAllowed {} last) := by
    unfold state braceFrame braceFrame.plain
    dsimp only
    rw [if_neg (by simpa using hprev.2), if_neg hprev.1, if_pos (Bool.true_or _)]
  have hstep : (state lx o top below prev exprAllowed {} last).stepKind left =
      (state lx o top below prev exprAllowed {} last).stepOpenBrace left.stmtStart := by
    simp only [stepKind, token, state, h]
  rw [hstep, hleft, stepOpenBrace, hframe]
  dsimp only
  change ((state lx o { kind := .block, start := lx.token.start, writeCount := o.writes.length }
    (top :: below) prev exprAllowed {} last).next true >>= _) = _
  rw [next_state, h, bind_assoc]
  rfl

/-- A brace closes a block, and a statement may start behind it. -/
theorem stepKind_closeBrace (h : lx.token.kind = .closeBrace) (hkind : top.kind = .block)
    (hexpr : top.isExpr = false) {f : Frame} (hf : f.kind.holdsStatements = true) :
    (state lx o top (f :: below) prev exprAllowed {} last).stepKind left = lx.next >>= fun lx' =>
      .ok (state lx' o f below .closeBrace true { stmtStart := true } top) := by
  have hclass : f.kind ≠ .classBody := by
    intro hclass
    rw [hclass] at hf
    cases hf
  have hstep : (state lx o top (f :: below) prev exprAllowed {} last).stepKind left =
      (state lx o top (f :: below) prev exprAllowed {} last).stepCloseBrace := by
    simp only [stepKind, token, state, h]
  rw [hstep, stepCloseBrace, close_state (by rw [hkind, h]; rfl), ok_bind]
  simp only [state, hkind, hexpr]
  change ((state lx o f below prev exprAllowed {} top).next true >>= _) = _
  rw [next_state, h, bind_assoc]
  congr
  funext lx'
  simp only [ok_bind, state, leave, hf, hclass, decide_false, Bool.not_false, Bool.and_self]
  rfl

/-- The words that are not read as variables everywhere. -/
def contextual : List Text := ["let", "yield", "await", "async"].map Text.ofString

/-- An outline that has met one more name. -/
def named (o : Outline) (name : Text) : Outline := { o with usedNames := name :: o.usedNames }

/-- A word without a meaning of its own is a variable. -/
theorem stepKind_identifier (h : lx.token.kind = .identifier) (hname : lx.token.name ∉ contextual)
    (hraw : lx.token.raw = lx.token.name) :
    (state lx o top below prev exprAllowed {} last).stepKind left =
      (state lx (named o lx.token.name) top below prev exprAllowed {} last).stepVariable left := by
  have hne : ∀ w ∈ ["let", "yield", "await", "async"], lx.token.name ≠ Text.ofString w :=
    fun w hw heq => hname (List.mem_map.2 ⟨w, hw, heq.symm⟩)
  have hlet := hne "let" (by simp)
  have hyield := hne "yield" (by simp)
  have hawait := hne "await" (by simp)
  have hasync := hne "async" (by simp)
  have hstep : (state lx o top below prev exprAllowed {} last).stepKind left =
      (state lx o top below prev exprAllowed {} last).stepIdentifier left := by
    have hword : lx.token.isWord "await" = false := by simp [Token.isWord, hraw, hawait]
    simp only [stepKind, token, state, h, hword, Bool.false_eq_true, reduceIte]
  rw [hstep]
  simp only [stepIdentifier, token, state, h, hlet, hyield, hawait, hasync, decide_false,
    Bool.and_false, Bool.false_and, Bool.false_eq_true, reduceIte]
  rfl

/-- A variable is mentioned and noted. -/
theorem stepKind_variable (h : lx.token.kind = .identifier) (hname : lx.token.name ∉ contextual)
    (hraw : lx.token.raw = lx.token.name) (hdecl : top.decl.expectBinding = false)
    (hpattern : top.kind.isPattern = false) (hkind : top.kind ≠ .bracket ∧ top.kind ≠ .object)
    (hleft : left.update = none) :
    (state lx o top below prev exprAllowed {} last).stepKind left = lx.next >>= fun lx' =>
      .ok (state lx' (named o lx.token.name)
        (if prev == .openParen && top.isForHead then
          { top with headRef := some ⟨lx.token.name, lx.token.start⟩ } else top)
        below .identifier false { ref := some ⟨lx.token.name, lx.token.start⟩ } last) := by
  let b : Binding := ⟨lx.token.name, lx.token.start⟩
  obtain ⟨top', htop'⟩ : ∃ top', top' =
      (if prev == .openParen && top.isForHead then { top with headRef := some b } else top) := ⟨_, rfl⟩
  have hkind' : top'.kind = top.kind := by
    rw [htop']
    split <;> rfl
  have helement : (state lx (named o lx.token.name) top' below prev exprAllowed {} last).atElementStart =
      false := by
    simp only [atElementStart, state, hkind']
    split <;> simp_all
  have hvariable : (state lx (named o lx.token.name) top below prev exprAllowed {} last).stepVariable left =
      (state lx (named o lx.token.name) top' below prev exprAllowed {} last).next false >>= fun p =>
        .ok { p with
          left := { p.left with
            ref := some b
            refIsElement :=
              (state lx (named o lx.token.name) top' below prev exprAllowed {} last).atElementStart }
          pendingUpdate := left.update.map (·, b) } := by
    unfold stepVariable
    rw [if_neg (by simp [state, hdecl]), if_neg (by simp [state, hpattern]), htop']
    have hhead : (state lx (named o lx.token.name) top below prev exprAllowed {} last).atForHeadStart =
        (prev == .openParen && top.isForHead) := rfl
    rw [hhead]
    cases (prev == .openParen && top.isForHead) <;> rfl
  rw [stepKind_identifier h hname hraw, hvariable, helement, next_state, hleft, h, bind_assoc, ← htop']
  rfl

/-- At the word `of` the head of a loop notes the variable that it started with. -/
theorem step_of (hshorthand : top.shorthand = none) (hkind : top.kind ≠ .bracket ∧ top.kind ≠ .object)
    (hhead : top.isForHead = true) (hempty : top.loopTargets = []) (h : lx.token.isWord "of" = true)
    (hline : lx.token.newlineBefore = false) (hprev : prev ≠ .dot ∧ prev ≠ .questionDot)
    (hkey : left.keyPosition = false) {r : Binding} (href : left.ref = some r)
    (hstart : top.headRef = some r) :
    (state lx o top below prev exprAllowed left last).step =
      (state lx o { top with loopTargets := [r] } below prev exprAllowed {} last).stepKind left := by
  have hnote : (top.isForHead && top.loopTargets.isEmpty &&
      (decide (lx.token.kind = .kwIn) || lx.token.isWord "of")) = true := by
    simp [hhead, hempty, h]
  unfold step
  simp only [state, settleUpdate, settleShorthand, hshorthand, collectTargets, hkind, decide_false,
    Bool.or_self, Bool.false_and, Bool.false_eq_true, reduceIte, noteLoop, token, hnote, settleLet,
    settleLine, hline, hprev, hkey, loopTargets, href, hstart, beq_self_eq_true, Option.toList]

/-- A run is a step and a run. -/
theorem run_succ (fuel : Nat) (hkind : lx.token.kind ≠ .slash ∧ lx.token.kind ≠ .slashAssign ∧
    lx.token.kind ≠ .endOfFile) (htop : top.kind ≠ .template) :
    run (fuel + 1) (state lx o top below prev exprAllowed left last) =
      (state lx o top below prev exprAllowed left last).step >>= run fuel := by
  have hretokenize : (state lx o top below prev exprAllowed left last).retokenize =
      .ok (state lx o top below prev exprAllowed left last) := by
    unfold retokenize
    split
    · rename_i hslash
      exact absurd hslash hkind.1
    · rename_i hslash
      exact absurd hslash hkind.2.1
    · exact if_neg htop
    · rfl
  rw [run, hretokenize, ok_bind]
  exact if_neg hkind.2.2

/-- Nothing is left to be settled before the current token, and it is not read again. -/
structure Calm (lx : Lexer) (top : Frame) (prev : TokenKind) (left : Leftover) : Prop where
  shorthand : top.shorthand = none
  kind : top.kind ≠ .bracket ∧ top.kind ≠ .object ∧ top.kind ≠ .template
  loop : top.isForHead = false ∨ top.loopTargets.isEmpty = false ∨
    (lx.token.kind ≠ .kwIn ∧ lx.token.isWord "of" = false)
  line : lx.token.newlineBefore = false
  prev : prev ≠ .dot ∧ prev ≠ .questionDot
  key : left.keyPosition = false
  token : lx.token.kind ≠ .slash ∧ lx.token.kind ≠ .slashAssign ∧ lx.token.kind ≠ .endOfFile

/-- A run handles the current token, and goes on with the next. -/
theorem run_of_stepKind (h : Calm lx top prev left) (fuel : Nat) {f : Lexer → Scanner}
    (hstep : (state lx o top below prev exprAllowed {} last).stepKind left = lx.next >>= fun lx' =>
      .ok (f lx')) :
    run (fuel + 1) (state lx o top below prev exprAllowed left last) = lx.next >>= fun lx' =>
      run fuel (f lx') := by
  rw [run_succ fuel h.token h.kind.2.2, step_state h.shorthand ⟨h.kind.1, h.kind.2.1⟩ h.loop (.inl h.line) h.prev
    h.key, hstep, bind_assoc]
  rfl

/-! ### Tokens in a text -/

/-- The scanner goes on after a token. The outline may depend on the next token. -/
def going (fuel : Nat) (s : Source) (t : Token) (rest : List Glyph) (o : Token → Outline) (top : Frame)
    (below : List Frame) (prev : TokenKind) (exprAllowed : Bool) (left : Leftover) (last : Frame) :
    Except Fault Scanner :=
  (after s t rest).next >>= fun lx => run fuel (state lx (o lx.token) top below prev exprAllowed left last)

variable {s : Source} {t : Token} {o : Token → Outline} {rest : List Glyph}

/-- The words of the statements, with their kinds. -/
def lexicon : List (Text × TokenKind) :=
  [("f", .identifier), ("a", .identifier), ("x", .identifier), ("of", .identifier), ("xs", .identifier),
    ("if", .kwIf), ("for", .kwFor), ("else", .kwElse)]

/-- The words of the fragment are words. -/
theorem isWord_of_mem {w : Text} {m : TokenKind} (h : (w, m) ∈ lexicon) : Lexer.IsWord w := by
  have hwords : ∀ p ∈ lexicon, Lexer.IsWord p.1 := by decide
  exact hwords _ h

/-- They are of the kinds that the lexicon tells. -/
theorem nameKind_of_mem {w : Text} {m : TokenKind} (h : (w, m) ∈ lexicon) : Lexer.nameKind w = m := by
  have hkinds : ∀ p ∈ lexicon, Lexer.nameKind p.1 = p.2 := by decide
  exact hkinds _ h

/-- None of them has a meaning that depends on where it stands. -/
theorem not_contextual_of_mem {w : Text} {m : TokenKind} (h : (w, m) ∈ lexicon) : w ∉ contextual := by
  have hfree : ∀ p ∈ lexicon, p.1 ∉ contextual := by decide
  exact hfree _ h

/-- Bytes that end a word. -/
def breaks : List UInt8 := [32, 40, 41, 59, 125]

/-- What stands behind a word in the fragment ends it. -/
theorem break_of_mem {b : UInt8} (h : b ∈ breaks) :
    CodePoint.isIdentifierPart b.toNat = false ∧ b.toNat ≠ 92 := by
  have hbreaks : ∀ b ∈ breaks, CodePoint.isIdentifierPart b.toNat = false ∧ b.toNat ≠ 92 := by
    decide
  exact hbreaks b h

/-- A token after which the source goes on. -/
structure Past (t : Token) : Prop where
  kind : t.kind ≠ .invalid
  stop : t.stop ≠ 0

theorem past_word {w : Text} {m : TokenKind} (h : (w, m) ∈ lexicon) (k : Nat) : Past (wordToken t k w) where
  kind heq := by
    have hm : ∀ p ∈ lexicon, p.2 ≠ .invalid := by decide
    exact hm _ h ((nameKind_of_mem h).symm.trans heq)
  stop := by
    have := List.length_pos_iff.2 (isWord_of_mem h).ne_nil
    simp only [wordToken]
    omega

theorem past_mark {b : UInt8} {m : TokenKind} (h : Lexer.markOf b = some m) (k : Nat) :
    Past (markToken t k b m) where
  kind heq := by
    obtain ⟨-, rfl⟩ | ⟨-, rfl⟩ | ⟨-, rfl⟩ | ⟨-, rfl⟩ | ⟨-, rfl⟩ := Lexer.markOf_cases h <;> cases heq
  stop := Nat.succ_ne_zero _

/-- Going on from a word: the lexer reads it and the scanner handles it. -/
theorem going_word (ht : Past t) (k : Nat) {w : Text} (hw : Lexer.IsWord w) {b : UInt8}
    (hb : CodePoint.isIdentifierPart b.toNat = false ∧ b.toNat ≠ 92) (fuel : Nat) {f : Lexer → Scanner}
    (hcalm : ∀ rest, Calm (after s (wordToken t k w) rest) top prev left)
    (hstep : ∀ lx, lx.token = wordToken t k w →
      (state lx (o (wordToken t k w)) top below prev exprAllowed {} last).stepKind left =
        lx.next >>= fun lx' => .ok (f lx')) :
    going (fuel + 1) s t (ascii (List.replicate k 32) ++ (ascii w ++ asciiGlyph b :: rest)) o top below prev
        exprAllowed left last =
      (after s (wordToken t k w) (asciiGlyph b :: rest)).next >>= fun lx' => run fuel (f lx') := by
  rw [going, Lexer.next_word ht.kind ht.stop k hw hb.1 hb.2, ok_bind]
  exact run_of_stepKind (hcalm _) fuel (hstep _ rfl)

/-- Going on from a mark. -/
theorem going_mark (ht : Past t) (k : Nat) {b : UInt8} {m : TokenKind} (hb : Lexer.markOf b = some m)
    (fuel : Nat) {f : Lexer → Scanner}
    (hcalm : ∀ rest, Calm (after s (markToken t k b m) rest) top prev left)
    (hstep : ∀ lx, lx.token = markToken t k b m →
      (state lx (o (markToken t k b m)) top below prev exprAllowed {} last).stepKind left =
        lx.next >>= fun lx' => .ok (f lx')) :
    going (fuel + 1) s t (ascii (List.replicate k 32) ++ asciiGlyph b :: rest) o top below prev
        exprAllowed left last =
      (after s (markToken t k b m) rest).next >>= fun lx' => run fuel (f lx') := by
  rw [going, Lexer.next_mark ht.kind ht.stop k hb, ok_bind]
  exact run_of_stepKind (hcalm _) fuel (hstep _ rfl)

/-- A frame in which variables stand, and nothing is declared. -/
structure Plain (f : Frame) : Prop where
  kind : f.kind ≠ .bracket ∧ f.kind ≠ .object ∧ f.kind ≠ .template
  shorthand : f.shorthand = none
  decl : f.decl.expectBinding = false
  pattern : f.kind.isPattern = false

/-- In a plain frame nothing is left to settle. -/
theorem Plain.calm (h : Plain top) {lx : Lexer} (hloop : top.isForHead = false ∨ top.loopTargets ≠ [] ∨
      (lx.token.kind ≠ .kwIn ∧ lx.token.isWord "of" = false))
    (hline : lx.token.newlineBefore = false) (hprev : prev ≠ .dot ∧ prev ≠ .questionDot)
    (hkey : left.keyPosition = false)
    (htoken : lx.token.kind ≠ .slash ∧ lx.token.kind ≠ .slashAssign ∧ lx.token.kind ≠ .endOfFile) :
    Calm lx top prev left where
  shorthand := h.shorthand
  kind := h.kind
  loop := hloop.imp_right (Or.imp_left (by simp))
  line := hline
  prev := hprev
  key := hkey
  token := htoken

theorem parenFrame_plain (use : ParenUse) (start writeCount : Nat) :
    Plain (parenFrame use start writeCount) := by
  cases use <;> exact ⟨by simp [parenFrame], rfl, rfl, rfl⟩

/-- What a variable makes of the frame that it stands in. -/
def headed (f : Frame) (prev : TokenKind) (b : Binding) : Frame :=
  if prev == .openParen && f.isForHead then { f with headRef := some b } else f

/-- Going on from a variable. -/
theorem going_variable (ht : Past t) (k : Nat) {w : Text} (hw : (w, .identifier) ∈ lexicon) {b : UInt8}
    (hb : b ∈ breaks) (fuel : Nat) (htop : Plain top)
    (hloop : top.isForHead = false ∨ top.loopTargets ≠ [] ∨ w ≠ Text.ofString "of")
    (hprev : prev ≠ .dot ∧ prev ≠ .questionDot) (hleft : left.keyPosition = false ∧ left.update = none) :
    going (fuel + 1) s t (ascii (List.replicate k 32) ++ (ascii w ++ asciiGlyph b :: rest)) o top below prev
        exprAllowed left last =
      going fuel s (wordToken t k w) (asciiGlyph b :: rest) (fun _ => named (o (wordToken t k w)) w)
        (headed top prev ⟨w, t.stop + k⟩) below .identifier false { ref := some ⟨w, t.stop + k⟩ } last := by
  have hname := nameKind_of_mem hw
  refine going_word ht k (isWord_of_mem hw) (break_of_mem hb) fuel
    (fun rest => htop.calm ?_ rfl hprev hleft.1 ?_) fun lx hlx => ?_
  · refine hloop.imp_right (Or.imp_right fun hne => ⟨?_, ?_⟩)
    · exact fun heq => absurd (hname.symm.trans heq) (by decide)
    · simp [Token.isWord, after, wordToken, hne]
  · show Lexer.nameKind w ≠ _ ∧ Lexer.nameKind w ≠ _ ∧ Lexer.nameKind w ≠ _
    rw [hname]
    decide
  · rw [stepKind_variable (by rw [hlx]; exact hname) (by rw [hlx]; exact not_contextual_of_mem hw)
      (by rw [hlx]; rfl) htop.decl htop.pattern ⟨htop.kind.1, htop.kind.2.1⟩ hleft.2, hlx]
    rfl

/-- The word `of` in the head of a loop that started with a variable. -/
theorem going_of (ht : Past t) (k : Nat) {b : UInt8} (hb : b ∈ breaks) (fuel : Nat) (htop : Plain top)
    (hhead : top.isForHead = true) (hempty : top.loopTargets = [])
    (hprev : (prev ≠ .dot ∧ prev ≠ .questionDot) ∧ prev ≠ .openParen)
    (hleft : left.keyPosition = false ∧ left.update = none) {r : Binding} (href : left.ref = some r)
    (hstart : top.headRef = some r) :
    going (fuel + 1) s t (ascii (List.replicate k 32) ++ (ascii [111, 102] ++ asciiGlyph b :: rest)) o top
        below prev exprAllowed left last =
      going fuel s (wordToken t k [111, 102]) (asciiGlyph b :: rest)
        (fun _ => named (o (wordToken t k [111, 102])) [111, 102]) { top with loopTargets := [r] } below
        .identifier false { ref := some ⟨[111, 102], t.stop + k⟩ } last := by
  have hw : ([111, 102], .identifier) ∈ lexicon := by decide
  have hkind : (after s (wordToken t k [111, 102]) (asciiGlyph b :: rest)).token.kind = .identifier :=
    nameKind_of_mem hw
  have hof : Text.ofString "of" = [111, 102] := by decide
  have hvariable := @stepKind_variable (after s (wordToken t k [111, 102]) (asciiGlyph b :: rest))
    (o (wordToken t k [111, 102])) { top with loopTargets := [r] } last below prev exprAllowed left hkind
    (not_contextual_of_mem hw) rfl htop.decl htop.pattern ⟨htop.kind.1, htop.kind.2.1⟩ hleft.2
  have hopen : (prev == .openParen) = false := beq_false_of_ne hprev.2
  simp only [hopen, Bool.false_and, Bool.false_eq_true, reduceIte] at hvariable
  rw [going, Lexer.next_word ht.kind ht.stop k (isWord_of_mem hw) (break_of_mem hb).1 (break_of_mem hb).2, ok_bind,
    run_succ fuel (by rw [hkind]; decide) htop.kind.2.2,
    step_of htop.shorthand ⟨htop.kind.1, htop.kind.2.1⟩ hhead hempty
      (by rw [Token.isWord, hkind, hof]; rfl) rfl hprev.1 hleft.1 href hstart]
  change (stepKind (state _ (o (wordToken t k [111, 102])) _ _ _ _ _ _) left >>= _) = _
  rw [hvariable, bind_assoc]
  rfl

/-- A frame in which statements stand, with no declaration under way. -/
structure Ground (f : Frame) : Prop where
  kind : f.kind = .module ∨ f.kind = .block
  shorthand : f.shorthand = none
  decl : f.decl = {}
  ternaries : f.ternaries = 0
  isForHead : f.isForHead = false
  isExpr : f.isExpr = false

/-- A frame that holds statements is plain. -/
theorem Ground.plain (h : Ground top) : Plain top where
  kind := by obtain hkind | hkind := h.kind <;> simp [hkind]
  shorthand := h.shorthand
  decl := by rw [h.decl]
  pattern := by obtain hkind | hkind := h.kind <;> rw [hkind] <;> rfl

theorem Ground.holdsStatements (h : Ground top) : top.kind.holdsStatements = true := by
  obtain hkind | hkind := h.kind <;> rw [hkind] <;> rfl

/-- After this token a statement may stand. -/
structure Ready (prev : TokenKind) (last : Frame) : Prop where
  dot : prev ≠ .dot ∧ prev ≠ .questionDot
  brace : prev ≠ .equalsGreaterThan ∧ (prev = .closeParen → last.kind ≠ .paren)

/-- Going on from a keyword where a statement may start. -/
theorem going_keyword (ht : Past t) (k : Nat) {w : Text} {m : TokenKind} (hw : (w, m) ∈ lexicon) {b : UInt8}
    (hb : b ∈ breaks) (htop : Ground top) (hready : Ready prev last)
    (hleft : left.keyPosition = false) (fuel : Nat) {left' : Leftover}
    (hstep : ∀ lx : Lexer, lx.token.kind = m →
      (state lx (o (wordToken t k w)) top below prev exprAllowed {} last).stepKind left =
        lx.next >>= fun lx' =>
          .ok (state lx' (o (wordToken t k w)) top below m true left' last)) :
    going (fuel + 1) s t (ascii (List.replicate k 32) ++ (ascii w ++ asciiGlyph b :: rest)) o top below prev
        exprAllowed left last =
      going fuel s (wordToken t k w) (asciiGlyph b :: rest) (fun _ => o (wordToken t k w)) top below m true
        left' last := by
  have hname := nameKind_of_mem hw
  refine going_word ht k (isWord_of_mem hw) (break_of_mem hb) fuel
    (fun rest => htop.plain.calm (.inl htop.isForHead) rfl hready.dot hleft ?_) fun lx hlx => ?_
  · show Lexer.nameKind w ≠ _ ∧ Lexer.nameKind w ≠ _ ∧ Lexer.nameKind w ≠ _
    have hkinds : ∀ p ∈ lexicon, p.2 ≠ .slash ∧ p.2 ≠ .slashAssign ∧ p.2 ≠ .endOfFile := by decide
    rw [hname]
    exact hkinds _ hw
  · exact hstep lx (by rw [hlx]; exact hname)

/-- Going on into a parenthesis. -/
theorem going_openParen (ht : Past t) (k : Nat) (fuel : Nat) (htop : Plain top)
    (hloop : top.isForHead = false) (hprev : prev ≠ .dot ∧ prev ≠ .questionDot)
    (hleft : left.keyPosition = false) :
    going (fuel + 1) s t (ascii (List.replicate k 32) ++ asciiGlyph 40 :: rest) o top below prev exprAllowed
        left last =
      going fuel s (markToken t k 40 .openParen) rest (fun _ => o (markToken t k 40 .openParen))
        (parenFrame left.nextParen (t.stop + k) (o (markToken t k 40 .openParen)).writes.length)
        (top :: below) .openParen true {} last := by
  refine going_mark ht k rfl fuel (fun rest => htop.calm (.inl hloop) rfl hprev hleft (by simp [after, markToken]))
    fun lx hlx => ?_
  rw [stepKind_openParen (by rw [hlx]; rfl), hlx]
  rfl

/-- Going on out of a parenthesis. -/
theorem going_closeParen (ht : Past t) (k : Nat) (fuel : Nat) (htop : Plain top)
    (hclose : top.kind.closer = .closeParen) (f : Frame) (hprev : prev ≠ .dot ∧ prev ≠ .questionDot)
    (hleft : left.keyPosition = false) :
    going (fuel + 1) s t (ascii (List.replicate k 32) ++ asciiGlyph 41 :: rest) o top (f :: below) prev
        exprAllowed left last =
      going fuel s (markToken t k 41 .closeParen) rest
        (fun next => loopNoted (o (markToken t k 41 .closeParen)) top.loopTargets next) f below .closeParen
        (top.kind == .parenStatement) { stmtStart := top.kind == .parenStatement } top := by
  refine going_mark ht k rfl fuel (fun rest => htop.calm (.inr (.inr ?_)) rfl hprev hleft
    (by simp [after, markToken])) fun lx hlx => stepKind_closeParen (by rw [hlx]; rfl) hclose f
  simp [after, markToken, Token.isWord]

/-- Going on over the end of a statement. -/
theorem going_semicolon (ht : Past t) (k : Nat) (fuel : Nat) (htop : Ground top)
    (hprev : prev ≠ .dot ∧ prev ≠ .questionDot) (hleft : left.keyPosition = false) :
    going (fuel + 1) s t (ascii (List.replicate k 32) ++ asciiGlyph 59 :: rest) o top below prev exprAllowed
        left last =
      going fuel s (markToken t k 59 .semicolon) rest (fun _ => o (markToken t k 59 .semicolon)) top below
        .semicolon true { stmtStart := true } last := by
  have hreset : { top with decl := {}, ternaries := 0 } = top := by rw [← htop.decl, ← htop.ternaries]
  refine going_mark ht k rfl fuel (fun rest => htop.plain.calm (.inl htop.isForHead) rfl hprev hleft
    (by simp [after, markToken])) fun lx hlx => ?_
  rw [stepKind_semicolon (by rw [hlx]; rfl) htop.holdsStatements, hreset]

/-- Going on into a block. -/
theorem going_openBrace (ht : Past t) (k : Nat) (fuel : Nat) (htop : Ground top) (hready : Ready prev last) :
    going (fuel + 1) s t (ascii (List.replicate k 32) ++ asciiGlyph 123 :: rest) o top below prev exprAllowed
        { stmtStart := true } last =
      going fuel s (markToken t k 123 .openBrace) rest (fun _ => o (markToken t k 123 .openBrace))
        { kind := .block
          start := t.stop + k
          writeCount := (o (markToken t k 123 .openBrace)).writes.length } (top :: below) .openBrace true
        { stmtStart := true } last := by
  refine going_mark ht k rfl fuel (fun rest => htop.plain.calm (.inl htop.isForHead) rfl hready.dot rfl
    (by simp [after, markToken])) fun lx hlx => ?_
  rw [stepKind_openBrace (by rw [hlx]; rfl) hready.brace rfl, hlx]
  rfl

/-- Going on out of a block. -/
theorem going_closeBrace (ht : Past t) (k : Nat) (fuel : Nat) (htop : Ground top) (hkind : top.kind = .block)
    {f : Frame} (hf : Ground f) (hprev : prev ≠ .dot ∧ prev ≠ .questionDot)
    (hleft : left.keyPosition = false) :
    going (fuel + 1) s t (ascii (List.replicate k 32) ++ asciiGlyph 125 :: rest) o top (f :: below) prev
        exprAllowed left last =
      going fuel s (markToken t k 125 .closeBrace) rest (fun _ => o (markToken t k 125 .closeBrace)) f below
        .closeBrace true { stmtStart := true } top :=
  going_mark ht k rfl fuel (fun rest => htop.plain.calm (.inl htop.isForHead) rfl hprev hleft
    (by simp [after, markToken])) fun lx hlx =>
      stepKind_closeBrace (by rw [hlx]; rfl) hkind htop.isExpr hf.holdsStatements

/-! ### Beginnings of statements -/

/-- The scanner goes on after a token, at the start of a statement. -/
def resume (fuel : Nat) (s : Source) (t : Token) (rest : List Glyph) (o : Token → Outline) (top : Frame)
    (below : List Frame) (prev : TokenKind) (last : Frame) : Except Fault Scanner :=
  going fuel s t rest o top below prev true { stmtStart := true } last

/-- A call: `f();`. -/
theorem resume_call (ht : Past t) (k : Nat) (htop : Ground top) (hready : Ready prev last) :
    ∃ t' last', Past t' ∧ t'.stop = t.stop + (k + 4) ∧
      ∀ fuel, resume (fuel + 4) s t (ascii (List.replicate k 32) ++ (ascii [102, 40, 41, 59] ++ rest)) o top
          below prev last =
        resume fuel s t' rest (fun _ => named (o (wordToken t k [102])) [102]) top below .semicolon
          last' := by
  have hf : ([102], .identifier) ∈ lexicon := by decide
  have hhead : headed top prev ⟨[102], t.stop + k⟩ = top := by simp [headed, htop.isForHead]
  have hcall := fun fuel => @going_variable top last below prev true { stmtStart := true } s t o
    (asciiGlyph 41 :: asciiGlyph 59 :: rest) ht k [102] hf 40 (by decide) (fuel + 3) htop.plain
    (.inl htop.isForHead) hready.dot ⟨rfl, rfl⟩
  rw [hhead] at hcall
  refine ⟨_, _, past_mark rfl 0, ?_, fun fuel => (hcall fuel).trans ((going_openParen (past_word hf k) 0
    (fuel + 2) htop.plain htop.isForHead (by decide) rfl).trans ((going_closeParen (past_mark rfl 0) 0
      (fuel + 1) (parenFrame_plain ..) rfl top (by decide) rfl).trans
        (going_semicolon (past_mark rfl 0) 0 fuel htop (by decide) rfl)))⟩
  simp [markToken, wordToken, Nat.add_assoc]

/-- The head of a conditional: `if (a)`. -/
theorem resume_cond (ht : Past t) (k : Nat) (htop : Ground top) (hready : Ready prev last) :
    ∃ t' last', Past t' ∧ t'.stop = t.stop + (k + 6) ∧ Ready .closeParen last' ∧
      ∀ fuel, resume (fuel + 4) s t (ascii (List.replicate k 32) ++ (ascii [105, 102, 32, 40, 97, 41] ++ rest))
          o top below prev last =
        resume fuel s t' rest (fun _ => named (o (wordToken t k [105, 102])) [97]) top below .closeParen
          last' := by
  have hif : ([105, 102], .kwIf) ∈ lexicon := by decide
  have ha : ([97], .identifier) ∈ lexicon := by decide
  have hkeyword := fun fuel => @going_keyword top last below prev true { stmtStart := true } s t o
    (ascii [40, 97, 41] ++ rest) ht k _ _ hif 32 (by decide) htop hready rfl (fuel + 3) _ fun lx hlx =>
      stepKind_if hlx
  refine ⟨_, _, past_mark rfl 0, ?_, ?_, fun fuel => (hkeyword fuel).trans ((going_openParen (past_word hif k) 1
    (fuel + 2) htop.plain htop.isForHead (by decide) rfl).trans ((going_variable (past_mark rfl 1) 0 ha
      (b := 41) (by decide) (fuel + 1) (parenFrame_plain ..) (.inl rfl) (by decide) ⟨rfl, rfl⟩).trans
        (going_closeParen (past_word ha 0) 0 fuel (parenFrame_plain ..) rfl top (by decide) rfl)))⟩
  · simp [markToken, wordToken, Nat.add_assoc]
  · exact ⟨by decide, by decide, by simp [parenFrame]⟩

/-- The word `else`. -/
theorem resume_else (ht : Past t) (k : Nat) (htop : Ground top) (hready : Ready prev last) :
    ∃ t', Past t' ∧ t'.stop = t.stop + (k + 4) ∧ Ready .kwElse last ∧
      ∀ fuel, resume (fuel + 1) s t (ascii (List.replicate k 32) ++ (ascii [101, 108, 115, 101] ++
          asciiGlyph 32 :: rest)) o top below prev last =
        resume fuel s t' (asciiGlyph 32 :: rest) (fun _ => o (wordToken t k [101, 108, 115, 101])) top below
          .kwElse last := by
  have helse : ([101, 108, 115, 101], .kwElse) ∈ lexicon := by decide
  exact ⟨_, past_word helse k, by simp [wordToken, Nat.add_assoc], ⟨by decide, by decide, by simp⟩,
    fun fuel => going_keyword ht k helse (by decide) htop hready rfl fuel fun lx hlx => stepKind_else hlx⟩

/-- The outline after the head of a loop. -/
def looped (o : Outline) (start : Nat) (next : Token) : Outline :=
  loopNoted (named (named (named o [120]) [111, 102]) [120, 115]) [⟨[120], start⟩] next

/-- The head of a loop: `for (x of xs)`. -/
theorem resume_loop (ht : Past t) (k : Nat) (htop : Ground top) (hready : Ready prev last) :
    ∃ t' last', Past t' ∧ t'.stop = t.stop + (k + 13) ∧ Ready .closeParen last' ∧
      ∀ fuel, resume (fuel + 6) s t (ascii (List.replicate k 32) ++
          (ascii [102, 111, 114, 32, 40, 120, 32, 111, 102, 32, 120, 115, 41] ++ rest)) o top below prev
          last =
        resume fuel s t' rest (looped (o (wordToken t k [102, 111, 114])) (t.stop + k + 5)) top below
          .closeParen last' := by
  have hfor : ([102, 111, 114], .kwFor) ∈ lexicon := by decide
  have hx : ([120], .identifier) ∈ lexicon := by decide
  have hof : ([111, 102], .identifier) ∈ lexicon := by decide
  have hxs : ([120, 115], .identifier) ∈ lexicon := by decide
  have hkeyword := fun fuel => @going_keyword top last below prev true { stmtStart := true } s t o
    (ascii [40, 120, 32, 111, 102, 32, 120, 115, 41] ++ rest) ht k _ _ hfor 32 (by decide) htop hready rfl
    (fuel + 5) _ fun lx hlx => stepKind_for hlx
  refine ⟨_, _, past_mark rfl 0, ?_, ?_, fun fuel => (hkeyword fuel).trans ((going_openParen (past_word hfor k)
    1 (fuel + 4) htop.plain htop.isForHead (by decide) rfl).trans ((going_variable (past_mark rfl 1) 0 hx
      (b := 32) (by decide) (fuel + 3) (parenFrame_plain ..) (.inr (.inr (by decide))) (by decide)
      ⟨rfl, rfl⟩).trans ((going_of (past_word hx 0) 1 (b := 32) (by decide) (fuel + 2) ?_ rfl rfl (by decide)
        ⟨rfl, rfl⟩ rfl rfl).trans ((going_variable (past_word hof 1) 1 hxs (b := 41) (by decide) (fuel + 1) ?_
          (.inr (.inl (by simp))) (by decide) ⟨rfl, rfl⟩).trans (going_closeParen (past_word hxs 1) 0 fuel ?_
            rfl top (by decide) rfl)))))⟩
  · simp [markToken, wordToken, Nat.add_assoc]
  · exact ⟨by decide, by decide, by simp [headed, parenFrame]⟩
  all_goals exact ⟨by simp [headed, parenFrame], rfl, rfl, rfl⟩

end ModuleSystem.Scanner
