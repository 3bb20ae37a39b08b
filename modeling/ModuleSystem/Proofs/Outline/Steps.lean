import ModuleSystem.Proofs.Outline.Memory

/-!
# The scanner — what a step adds to its memory

A step first settles what the token before it left open (`settled`), and then handles the current token
by its kind (`handleToken`).  Each part is described by what it keeps (`Keeps.settleUpdate`, …,
`Keeps.stepKind`); the whole step by `Keeps.step`: it makes one cut at most, that starts at the current
token, and all places that it adds are the ends of the current token and of the one before it, its start,
and the start of the token that it leads to.

* `Keeps.step`, `Keeps.retokenize`, `Keeps.finish`: the parts of a run.
* `run_induct`: what they preserve holds at the end of the source.
* `Outline.opening`, `Outline.scan_eq`: how a source is opened, and what reading it comes to.
-/

namespace ModuleSystem.Scanner

variable {m : Demands} {cuts : List Cut} {p p' q : Scanner} {left : Leftover}

/-! ### Before the token is handled -/

/-- The two scanners stand on the same token, after the same token and frame. -/
structure Alike (p q : Scanner) : Prop where
  lexer : q.lexer = p.lexer
  prev : q.prev = p.prev
  lastClosed : q.lastClosed = p.lastClosed

theorem Alike.refl (p : Scanner) : Alike p p := ⟨rfl, rfl, rfl⟩

theorem Alike.trans {r : Scanner} (h : Alike p q) (h' : Alike q r) : Alike p r :=
  ⟨h'.lexer.trans h.lexer, h'.prev.trans h.prev, h'.lastClosed.trans h.lastClosed⟩

theorem Alike.token (h : Alike p q) : q.token = p.token := congrArg Lexer.token h.lexer

/-- Adding a variable to a declaration moves nothing. -/
theorem addBinding_alike (declFrame : Nat) (b : Binding) : Alike p (p.addBinding declFrame b) := by
  unfold Scanner.addBinding
  split <;> exact ⟨rfl, rfl, rfl⟩

/-- Forgetting writes moves nothing. -/
theorem discardWrites_alike (count : Nat) : Alike p (p.discardWrites count) := by
  unfold Scanner.discardWrites
  split <;> exact ⟨rfl, rfl, rfl⟩

/-- Closing a frame moves nothing; the frame that was closed last is set where the bracket is read. -/
theorem pop_alike : Alike p p.pop := by
  unfold Scanner.pop
  split <;> exact ⟨rfl, rfl, rfl⟩

/-- Settling an increment moves nothing. -/
theorem settleUpdate_alike : Alike p p.settleUpdate := by
  unfold Scanner.settleUpdate
  split
  · exact .refl p
  · dsimp only
    split <;> exact ⟨rfl, rfl, rfl⟩

/-- The write of an increment before a variable ends with the last token. -/
theorem Keeps.settleUpdate (h : p.Keeps m cuts) (hstop : m.stop p.token.prevStop) :
    p.settleUpdate.Keeps m cuts := by
  unfold Scanner.settleUpdate
  split
  · exact h
  · rename_i start b hpending
    have hnone : Keeps m cuts { p with pendingUpdate := none } := { h with pending := by simp }
    dsimp only
    split
    · exact hnone
    · exact hnone.addWrite (h.pending (start, b) (by rw [hpending]; rfl)) (.inr hstop)

theorem settleShorthand_alike : Alike p p.settleShorthand := by
  unfold Scanner.settleShorthand
  split
  · exact .refl p
  · rename_i b _
    dsimp only
    split
    · exact (addBinding_alike p.top.declFrame b).trans ⟨rfl, rfl, rfl⟩
    · split <;> exact ⟨rfl, rfl, rfl⟩

/-- A key without a value that is bound met the demands on words when it was read. -/
theorem Keeps.settleShorthand (h : p.Keeps m cuts) : p.settleShorthand.Keeps m cuts := by
  unfold Scanner.settleShorthand
  split
  · exact h
  · rename_i b hb
    have hword := h.top.shorthand b (by rw [hb]; rfl)
    have hnone : ∀ q : Scanner, q.Keeps m cuts →
        Keeps m cuts { q with top := { q.top with shorthand := none } } := fun q hq =>
      hq.withTop { hq.top with shorthand := by simp }
    refine hnone _ ?_
    split
    · exact h.addBinding hword _
    · split
      · exact h.withTop { h.top with }
      · exact h

theorem collectTargets_alike : Alike p (p.collectTargets left) := by
  unfold Scanner.collectTargets
  split <;> exact ⟨rfl, rfl, rfl⟩

/-- The variables of an element are collected for the literal around it. -/
theorem Keeps.collectTargets (h : p.Keeps m cuts) : (p.collectTargets left).Keeps m cuts := by
  unfold Scanner.collectTargets
  split
  · exact h.withTop { h.top with }
  · exact h

theorem noteLoop_alike {ref : Option Binding} : Alike p (p.noteLoop ref) := by
  unfold Scanner.noteLoop
  split <;> exact ⟨rfl, rfl, rfl⟩

/-- The head of a loop may turn out to assign the variable or the literal at its start. -/
theorem Keeps.noteLoop (h : p.Keeps m cuts) (ref : Option Binding) : (p.noteLoop ref).Keeps m cuts := by
  unfold Scanner.noteLoop
  split
  · rename_i hhead
    simp only [Bool.and_eq_true] at hhead
    exact h.withTop { h.top with loop := fun _ => hhead.1.1 }
  · exact h

theorem settleLet_alike : Alike p (p.settleLet left).1 := by
  unfold Scanner.settleLet
  split
  · dsimp only
    split <;> exact ⟨rfl, rfl, rfl⟩
  · exact .refl p

/-- Behind `let` a declaration starts, or the word was a variable. -/
theorem Keeps.settleLet (h : p.Keeps m cuts) (hleft : left.Meets m) :
    (p.settleLet left).1.Keeps m cuts ∧ (p.settleLet left).2.Meets m := by
  unfold Scanner.settleLet
  split
  · have hlet : Keeps m cuts { p with pendingLet := false } := { h with }
    dsimp only
    split
    · exact ⟨hlet.startDeclaration none, { hleft with ref := by simp }⟩
    · exact ⟨hlet.startDeclaration none, { hleft with ref := by simp }⟩
    · exact ⟨hlet.startDeclaration none, { hleft with ref := by simp }⟩
    · exact ⟨hlet, hleft⟩
  · exact ⟨h, hleft⟩

theorem settleLine_alike : Alike p (p.settleLine left).1 := by
  unfold Scanner.settleLine
  split <;> exact ⟨rfl, rfl, rfl⟩

/-- A line terminator may end the statement before it. -/
theorem Keeps.settleLine (h : p.Keeps m cuts) (hstop : m.stop p.token.prevStop) (hleft : left.Meets m) :
    (p.settleLine left).1.Keeps m cuts ∧ (p.settleLine left).2.Meets m := by
  unfold Scanner.settleLine
  split
  · refine ⟨h.endStatement hstop, ?_⟩
    dsimp only
    split <;> exact { hleft with ref := by simp }
  · exact ⟨h, hleft⟩

/-! ### The two halves of a step -/

/-- What the token before the current one left open is settled, before the current one is handled. -/
def settled (p : Scanner) : Scanner × Leftover :=
  let q := { p with left := {} }.settleUpdate.settleShorthand
  let q := (q.collectTargets p.left).noteLoop p.left.ref
  let (q, left) := q.settleLet p.left
  q.settleLine left

/-- The current token is handled. -/
def handleToken (p : Scanner) (left : Leftover) : Except Fault Scanner :=
  if (p.prev = .dot || p.prev = .questionDot)
      && (p.token.kind.isName || p.token.kind = .privateName) then p.next false
  else match (if left.keyPosition then p.stepKey else none) with
    | some result => result
    | none => p.stepKind left

theorem step_eq_handleToken (p : Scanner) : p.step = p.settled.1.handleToken p.settled.2 := (rfl)

/-- Settling what is left moves nothing. -/
theorem settled_alike (p : Scanner) : Alike p p.settled.1 :=
  Alike.trans (q := { p with left := {} }) ⟨rfl, rfl, rfl⟩
    (((((settleUpdate_alike.trans settleShorthand_alike).trans collectTargets_alike).trans noteLoop_alike).trans
      settleLet_alike).trans settleLine_alike)

/-- Settling what was left open makes no cut and adds no other places. -/
theorem Keeps.settled (h : p.Keeps m cuts) (hstop : m.stop p.token.prevStop) :
    p.settled.1.Keeps m cuts ∧ p.settled.2.Meets m := by
  have h₀ : Keeps m cuts { p with left := {} } := { h with left := Leftover.meets_empty }
  have h₁ := h₀.settleUpdate hstop
  have h₂ := (@Keeps.collectTargets _ _ _ p.left h₁.settleShorthand).noteLoop p.left.ref
  obtain ⟨h₃, hleft₃⟩ := h₂.settleLet h.left
  -- the token stays the same up to the last of these
  have htoken := settleLine_alike.token.symm.trans p.settled_alike.token
  exact h₃.settleLine (htoken.symm ▸ hstop) hleft₃

/-! ### Keys and variables -/

/-- A key adds its name only. -/
theorem Keeps.stepKey (h : p.Keeps m cuts) (hm : m.Fair) {x : Except Fault Scanner}
    (hx : p.stepKey = some x) : Ensures x (Keeps (m.past p.token.stop) cuts) := by
  unfold Scanner.stepKey at hx
  extract_lets t _ p₁ p₂ at hx
  split at hx
  · rename_i hname
    have hword := h.word_of_isName hm hname
    cases hx
    have h₁ : p₁.Keeps m cuts ∧ p₁.token = p.token := by
      dsimp only [p₁]
      split
      · exact ⟨h.withTop { h.top with shorthand := by rintro _ ⟨⟩; exact hword }, rfl⟩
      · exact ⟨h, rfl⟩
    have h₂ : p₂.Keeps m cuts ∧ p₂.token = p.token := by
      dsimp only [p₂]
      split
      · exact ⟨h₁.1.leave { h₁.1.left with }, h₁.2⟩
      · exact h₁
    rw [← h₂.2]
    exact (h₂.1.use t.name).next_past false
  · split at hx
    · cases hx; exact h.next_past false
    · cases hx; exact h.next_past false
    · cases hx; exact h.next_past false
    · cases hx; exact h.next_past false
    · cases hx; exact (h.leave { h.left with }).next_past true
    · cases hx

/-- A variable adds its name, and its place as one where a write may start. -/
theorem Keeps.stepVariable (h : p.Keeps m cuts) (hleft : left.Meets m)
    (hstart : m.start p.token.start) (hword : m.word p.token.name) :
    Ensures (p.stepVariable left) (Keeps (m.past p.token.stop) cuts) := by
  unfold Scanner.stepVariable
  extract_lets b _ _ pDecl pPattern p₁ isElement
  split
  · have hdecl : pDecl.Keeps m cuts := h.withTop { h.top with }
    have hnext := (hdecl.addBinding (b := b) hword p.below.length).next_past false
    rwa [(addBinding_alike p.below.length b).token] at hnext
  split
  · have hpattern : pPattern.Keeps m cuts := h.withTop { h.top with }
    have hnext := (hpattern.addBinding (b := b) hword p.top.declFrame).next_past false
    rwa [(addBinding_alike p.top.declFrame b).token] at hnext
  · have h₁ : p₁.Keeps m cuts ∧ p₁.token = p.token := by
      dsimp only [p₁]
      split
      · exact ⟨h.withTop { h.top with }, rfl⟩
      · exact ⟨h, rfl⟩
    rw [← h₁.2]
    refine (h₁.1.next_past false).bind fun p₂ h₂ => .ok ?_
    refine { h₂ with left := { h₂.left with ref := ?_ }, pending := ?_ }
    · rintro _ ⟨⟩
      exact hstart
    · intro u hu
      obtain ⟨n, hn, rfl⟩ := Option.map_eq_some_iff.1 hu
      exact hleft.update n hn

/-- An identifier adds its name, and as a variable its place. -/
theorem Keeps.stepIdentifier (h : p.Keeps m cuts) (hleft : left.Meets m)
    (hstart : m.start p.token.start) (hword : m.word p.token.name) :
    Ensures (p.stepIdentifier left) (Keeps (m.past p.token.stop) cuts) := by
  have huse := h.use p.token.name
  unfold Scanner.stepIdentifier
  extract_lets t p₁ isWord
  split
  · exact Keeps.next_past (p := { p₁ with pendingLet := true }) { huse with } true
  split
  · split
    · exact .error
    · exact huse.next_past true
  split
  · split
    · exact .error
    · exact huse.next_past true
  split
  · exact (huse.leave { huse.left with }).stepVariable hleft hstart hword
  · exact huse.stepVariable hleft hstart hword

/-! ### Operators and brackets -/

/-- An assignment starts a write at the place of its target. -/
theorem Keeps.stepAssign (h : p.Keeps m cuts) {ref : Option Binding}
    (href : ∀ b ∈ ref, m.start b.start) :
    Ensures (p.stepAssign ref) (Keeps (m.past p.token.stop) cuts) := by
  unfold Scanner.stepAssign
  extract_lets f targets q p₁
  have h₁ : p₁.Keeps m cuts ∧ p₁.token = p.token := by
    dsimp only [p₁]
    split
    · rename_i hliteral
      have hq : q.Keeps m cuts := h.discardWrites _
      have htoken : q.token = p.token := (discardWrites_alike _).token
      split
      · exact ⟨hq, htoken⟩
      · refine ⟨hq.startWrite (h.lastClosed.start ?_), htoken⟩
        simp only [Bool.and_eq_true, Bool.or_eq_true, decide_eq_true_eq] at hliteral
        exact hliteral.2.imp And.right And.right
    · split
      · rename_i b
        exact ⟨h.startWrite (href b rfl), rfl⟩
      · exact ⟨h, rfl⟩
  rw [← h₁.2]
  exact h₁.1.next_past true

/-- Assignments that end at a colon end with the token before it. -/
theorem Keeps.stepColon (h : p.Keeps m cuts) (hstop : m.stop p.token.prevStop) :
    Ensures p.stepColon (Keeps (m.past p.token.stop) cuts) := by
  unfold Scanner.stepColon
  extract_lets kind ternaries p₁
  have h₁ : p₁.Keeps m cuts := h.closeWhile hstop _
  refine ((h₁.withTop (f := { p₁.top with ternaries := ternaries - 1 }) { h₁.top with }).next_past
    true).bind fun p₂ h₂ => ?_
  split
  · exact .ok (h₂.withTop { h₂.top with })
  split
  · exact .ok (h₂.leave { h₂.left with })
  · exact .ok h₂

/-- That a pattern is bound changes nothing that is remembered. -/
theorem bindingTarget_keeps (h : p.Keeps m cuts) :
    p.bindingTarget.2.Keeps m cuts ∧ Alike p p.bindingTarget.2 := by
  unfold Scanner.bindingTarget
  split
  · exact ⟨h.withTop { h.top with }, rfl, rfl, rfl⟩
  split
  · exact ⟨h.withTop { h.top with }, rfl, rfl, rfl⟩
  · exact ⟨h, .refl p⟩

/-- A brace may open a literal, whose start is demanded of; the other frames start no write. -/
theorem braceFrame_plain_keeps (h : p.Keeps m cuts) (stmtStart : Bool) {start : Nat}
    (hstart : m.start start) :
    (braceFrame.plain stmtStart p).2.Keeps m cuts ∧ Alike p (braceFrame.plain stmtStart p).2 ∧
      { (braceFrame.plain stmtStart p).1 with start }.Meets m := by
  unfold braceFrame.plain
  split
  · exact ⟨{ h.discardWrites _ with }, (discardWrites_alike _).trans ⟨rfl, rfl, rfl⟩,
      ⟨fun _ => hstart, by simp, by simp, by simp⟩⟩
  split
  · exact ⟨h, .refl p, ⟨fun _ => hstart, by simp, by simp, by simp⟩⟩
  split
  · exact ⟨h, .refl p, ⟨fun _ => hstart, by simp, by simp, by simp⟩⟩
  have hbind := bindingTarget_keeps h
  split
  · rename_i declFrame q hq
    rw [hq] at hbind
    exact ⟨hbind.1, hbind.2, ⟨fun _ => hstart, by simp, by simp, by simp⟩⟩
  · rename_i q hq
    rw [hq] at hbind
    split
    · exact ⟨hbind.1, hbind.2, ⟨fun _ => hstart, by simp, by simp, by simp⟩⟩
    · exact ⟨hbind.1, hbind.2, ⟨fun _ => hstart, by simp, by simp, by simp⟩⟩

/-- The body of a function or class starts no write. -/
theorem braceFrame_keeps (h : p.Keeps m cuts) (stmtStart : Bool) {start : Nat}
    (hstart : m.start start) :
    (p.braceFrame stmtStart).2.Keeps m cuts ∧ Alike p (p.braceFrame stmtStart).2 ∧
      { (p.braceFrame stmtStart).1 with start }.Meets m := by
  unfold Scanner.braceFrame
  split
  · split
    · exact ⟨{ h with }, ⟨rfl, rfl, rfl⟩, ⟨fun _ => hstart, by simp, by simp, by simp⟩⟩
    · exact braceFrame_plain_keeps h stmtStart hstart
  · exact braceFrame_plain_keeps h stmtStart hstart

/-- An opening brace opens a frame at its place. -/
theorem Keeps.stepOpenBrace (h : p.Keeps m cuts) (hstart : m.start p.token.start)
    (stmtStart : Bool) :
    Ensures (p.stepOpenBrace stmtStart) (Keeps (m.past p.token.stop) cuts) := by
  obtain ⟨hq, halike, hframe⟩ := braceFrame_keeps h stmtStart hstart
  unfold Scanner.stepOpenBrace
  rw [← halike.token] at hframe ⊢
  refine ((hq.push hframe).next_past true).bind fun p₁ h₁ => ?_
  split <;> exact .ok (h₁.leave { h₁.left with })

/-- A closing brace ends the assignments in its frame. -/
theorem Keeps.stepCloseBrace (h : p.Keeps m cuts) (hstop : m.stop p.token.prevStop) :
    Ensures p.stepCloseBrace (Keeps (m.past p.token.stop) cuts) := by
  unfold Scanner.stepCloseBrace
  refine (h.close hstop).bind fun p₁ h₁ => ?_
  obtain ⟨h₁, hlexer, -, -⟩ := h₁
  rw [Scanner.token, ← hlexer, ← Scanner.token]
  extract_lets closed parent
  split
  · exact (h₁.next_past _).bind fun p₂ h₂ => .ok (h₂.leave { h₂.left with })
  · exact (h₁.next_past _).bind fun p₂ h₂ => .ok (h₂.leave { h₂.left with })
  · exact (h₁.next_past _).bind fun p₂ h₂ => .ok (h₂.leave { h₂.left with })
  · exact (h₁.leave { h₁.left with }).next_past false
  · exact h₁.next_past false

/-- An opening bracket opens a frame at its place. -/
theorem Keeps.stepOpenBracket (h : p.Keeps m cuts) (hstart : m.start p.token.start) :
    Ensures p.stepOpenBracket (Keeps (m.past p.token.stop) cuts) := by
  have hbind := bindingTarget_keeps h
  unfold Scanner.stepOpenBracket
  split
  · rename_i declFrame q hq
    rw [hq] at hbind
    rw [← hbind.2.token]
    exact (hbind.1.push ⟨by simp, by simp, by simp, by simp⟩).next_past true
  · rename_i q hq
    rw [hq] at hbind
    rw [← hbind.2.token] at hstart ⊢
    exact (hbind.1.push ⟨fun _ => hstart, by simp, by simp, by simp⟩).next_past true

/-- A closing bracket ends the assignments in its frame. -/
theorem Keeps.stepCloseBracket (h : p.Keeps m cuts) (hstop : m.stop p.token.prevStop) :
    Ensures p.stepCloseBracket (Keeps (m.past p.token.stop) cuts) := by
  unfold Scanner.stepCloseBracket
  refine (h.close hstop).bind fun p₁ h₁ => ?_
  obtain ⟨h₁, hlexer, -, -⟩ := h₁
  rw [Scanner.token, ← hlexer, ← Scanner.token]
  extract_lets p₂
  have h₂ : p₂.Keeps m cuts ∧ p₂.token = p₁.token := by
    dsimp only [p₂]
    split
    · exact ⟨h₁.leave { h₁.left with }, rfl⟩
    · exact ⟨h₁, rfl⟩
  rw [← h₂.2]
  exact h₂.1.next_past false

/-- A place that a loop can be given a notice at, with the token after its head. -/
def LoopPlace (m : Demands) (p : Scanner) : Prop :=
  p.prev = .closeParen → p.lastClosed.kind = .parenStatement →
    m.start p.token.start ∧ (p.token.kind = .openBrace → m.start (p.token.start + 1))

/-- A closing parenthesis may end the head of a loop, whose body then starts at the next token. -/
theorem Keeps.stepCloseParen (h : p.Keeps m cuts) (hstop : m.stop p.token.prevStop) :
    Ensures p.stepCloseParen fun p' =>
      LoopPlace m p' → p'.Keeps (m.past p.token.stop) cuts := by
  unfold Scanner.stepCloseParen
  refine (h.close hstop).bind fun p₁ h₁ => ?_
  obtain ⟨h₁, hlexer, -, hcloser⟩ := h₁
  rw [Scanner.token] at hcloser ⊢
  rw [← hlexer, ← Scanner.token] at hcloser ⊢
  extract_lets closed isStatement
  refine Ensures.bind (P := fun p₂ => p₂.Keeps (m.past p₁.token.stop) cuts ∧
    p₂.prev = p₁.token.kind ∧ p₂.lastClosed = closed) (fun p₂ hp₂ => ?_) fun p₂ h₂ => ?_
  · have hkeeps := h₁.next_past isStatement p₂ hp₂
    obtain ⟨lx, hlx, rfl⟩ := next_ok hp₂
    exact ⟨hkeeps, rfl, rfl⟩
  · obtain ⟨h₂, hprev, hlast⟩ := h₂
    have h₃ := h₂.leave (f := ({ · with stmtStart := isStatement })) { h₂.left with }
    extract_lets p₃ loop
    split
    · exact .ok fun _ => h₃
    · rename_i hloop
      refine .ok fun hplace => { h₃ with outline := { h₃.outline with loops := ?_ } }
      -- only the head of a loop assigns variables on each turn, and its parenthesis is one of a statement
      have hhead : closed.kind = .parenStatement := by
        refine h₁.lastClosed.forHead (h₁.lastClosed.loop fun hnil => hloop ?_)
        simp [closed, hnil]
      obtain ⟨hstart, hinside⟩ := hplace (by rw [show p₃.prev = _ from hprev, ← hcloser, hhead]; rfl)
        (by rw [show p₃.lastClosed = _ from hlast, hhead])
      intro l hl
      obtain hl | hl := List.mem_append.1 hl
      · exact h₃.outline.loops l hl
      · cases List.mem_singleton.1 hl
        simp only [LoopWrite.place, loop]
        split
        · rename_i hbrace
          have hkind : p₃.token.kind = .openBrace := by simpa using hbrace
          exact hinside hkind
        · exact hstart

/-- A comma ends the assignments of its depth with the token before it. -/
theorem Keeps.stepComma (h : p.Keeps m cuts) (hstop : m.stop p.token.prevStop) :
    Ensures p.stepComma (Keeps (m.past p.token.stop) cuts) := by
  unfold Scanner.stepComma
  extract_lets p₁ _ _ p₂ rest
  refine .forbid fun _ => ?_
  have h₁ : p₁.Keeps m cuts := h.closeWrites hstop _
  have h₂ : p₂.Keeps m cuts ∧ p₂.token = p.token := by
    dsimp only [p₂]
    split
    · exact ⟨h₁.withTop { h₁.top with }, rfl⟩
    · exact ⟨h₁, rfl⟩
  rw [← h₂.2]
  refine (h₂.1.next_past true).bind fun p₃ h₃ => ?_
  split
  · exact .ok (h₃.leave { h₃.left with })
  · exact .ok (h₃.leave { h₃.left with })
  · exact .ok (h₃.withTop { h₃.top with })
  · exact .ok h₃

/-- An increment starts at its variable and ends with itself, or it starts with itself and is noted. -/
theorem Keeps.stepUpdate (h : p.Keeps m cuts) {ref : Option Binding}
    (href : ∀ b ∈ ref, m.start b.start) (hstart : m.start p.token.start)
    (hend : m.stop p.token.stop) :
    Ensures (p.stepUpdate ref) (Keeps (m.past p.token.stop) cuts) := by
  unfold Scanner.stepUpdate
  split
  · rename_i b _
    exact (h.addWrite (href b rfl) (.inr hend)).next_past false
  · refine (h.next_past true).bind fun p₁ h₁ => .ok (h₁.leave { h₁.left with update := ?_ })
    rintro _ ⟨⟩
    exact hstart

/-! ### The whole step -/

/-- The cuts that a step from `p` to `p'` makes: one at most, and no whole statement is the body of
another one. -/
def NewCuts (s : Source) (p p' : Scanner) (new : List Cut) : Prop :=
  new = [] ∨ ∃ k, new = [k] ∧ CutsTo s p p' k ∧
    (k.whole = true → p.prev = .closeParen → p.lastClosed.kind ≠ .parenStatement)

/-- The demands allow the places that a step from `p` to `p'` may add. -/
structure Allows (m : Demands) (p p' : Scanner) : Prop where
  prevStop : m.stop p.token.prevStop
  token : p.token.kind ≠ .kwImport → p.token.kind ≠ .kwExport →
    m.start p.token.start ∧ m.stop p.token.stop
  insertion : p'.prev ≠ .semicolon → m.start p'.token.prevStop
  loop : LoopPlace m p'

/-- What a step from `p` to `p'` may do to the memory of the scanner. -/
def Leads (m : Demands) (cuts : List Cut) (p p' : Scanner) : Prop :=
  ∃ new, NewCuts m.source p p' new ∧
    (Allows m p p' → p'.Keeps (m.past p.token.stop) (new ++ cuts))

/-- A step without cuts. -/
theorem leads_of_keeps {x : Except Fault Scanner} (himport : p.token.kind ≠ .kwImport)
    (hexport : p.token.kind ≠ .kwExport)
    (hx : m.start p.token.start → m.stop p.token.stop →
      Ensures x (Keeps (m.past p.token.stop) cuts)) : Ensures x (Leads m cuts p) := by
  intro p' hp'
  refine ⟨[], .inl rfl, fun hallows => ?_⟩
  obtain ⟨hstart, hend⟩ := hallows.token himport hexport
  exact hx hstart hend p' hp'

/-- A step without cuts that adds no place of the token. -/
theorem leads_of_ensures {x : Except Fault Scanner}
    (hx : Ensures x (Keeps (m.past p.token.stop) cuts)) : Ensures x (Leads m cuts p) :=
  fun p' hp' => ⟨[], .inl rfl, fun _ => hx p' hp'⟩

/-- The keyword of an import call is cut. -/
theorem Keeps.addDynamicImport (h : p.Keeps m cuts) (r : Range) :
    Keeps m (⟨r, false⟩ :: cuts) { p with outline :=
      { p.outline with dynamicImports := p.outline.dynamicImports ++ [r] } } := by
  refine { h with outline := { h.outline with }, cuts := List.Perm.trans ?_ (h.cuts.cons _) }
  simp only [Outline.cuts, List.map_append, List.map_cons, List.map_nil, List.append_assoc,
    List.singleton_append]
  rw [← List.append_assoc, ← List.append_assoc, ← List.append_assoc, ← List.append_assoc]
  exact List.perm_middle

/-- A meta property is cut. -/
theorem Keeps.addImportMeta (h : p.Keeps m cuts) (r : Range) :
    Keeps m (⟨r, false⟩ :: cuts) { p with outline :=
      { p.outline with importMetas := p.outline.importMetas ++ [r] } } := by
  refine { h with outline := { h.outline with }, cuts := List.Perm.trans ?_ (h.cuts.cons _) }
  simp only [Outline.cuts, List.map_append, List.map_cons, List.map_nil, ← List.append_assoc]
  exact List.perm_append_singleton _ _

/-- Behind the parenthesis of a statement no module item stands. -/
theorem prev_of_atModuleItem {stmtStart : Bool} (h : p.atModuleItem stmtStart = true)
    (hprev : p.prev = .closeParen) : p.lastClosed.kind ≠ .parenStatement := by
  unfold Scanner.atModuleItem at h
  rw [hprev] at h
  simp only [Bool.and_eq_true, decide_eq_true_eq] at h
  exact h.2

/-- An import statement is cut as a whole, and of a call or a meta property a part. -/
theorem Keeps.stepImport (h : p.Keeps m cuts) (hm : m.Fair) (hkind : p.token.kind = .kwImport)
    (stmtStart : Bool) : Ensures (p.stepImport stmtStart) (Leads m cuts p) := by
  have hm₁ : (m.past p.token.stop).Fair := ⟨hm.1, hm.2, hm.3⟩
  unfold Scanner.stepImport
  extract_lets keyword
  refine Ensures.bind (P := fun p₁ => p₁.Keeps (m.past p.token.stop) cuts ∧ p₁.prev = p.prev ∧
    p₁.lastClosed = p.lastClosed) (fun p₁ hp₁ => ?_) fun p₁ h₁ => ?_
  · have hkeeps := h.advance_past p₁ hp₁
    obtain ⟨lx, hlx, rfl⟩ := advance_ok hp₁
    exact ⟨hkeeps, rfl, rfl⟩
  obtain ⟨h₁, hprev, hlast⟩ := h₁
  have hcut : ∀ p' : Scanner, p'.Keeps (m.past p.token.stop) (⟨keyword, false⟩ :: cuts) →
      Leads m cuts p p' := fun p' hp' =>
    ⟨[⟨keyword, false⟩], .inr ⟨_, rfl,
      cutsTo_keyword h.lexer (.inl hkind) le_rfl hp'.floor h.lexer.seam_stop, by simp⟩, fun _ => hp'⟩
  split
  · extract_lets _ o
    refine Ensures.bind (((h₁.addDynamicImport keyword).push ?_).next true) fun p₂ h₂ => ?_
    · exact ⟨by simp, by simp, by simp, by simp⟩
    · extract_lets rest
      exact .forbid fun _ => .ok (hcut p₂ h₂)
  · refine h₁.advance.bind fun p₂ h₂ => ?_
    extract_lets _ o p₃ rest
    exact .require fun _ => ((h₂.addImportMeta keyword).next false).mono hcut
  · extract_lets rest
    refine .require fun hitem => (h₁.readImport hm₁ keyword.start).mono fun p' hp' => ?_
    refine ⟨[_], .inr ⟨_, rfl, cutsTo_whole h.lexer hp' (.inl hkind), fun _ hclose => ?_⟩,
      fun _ => hp'.1⟩
    rw [← hlast]
    exact prev_of_atModuleItem hitem (hprev.trans hclose)

theorem Keeps.ite {c : Prop} [Decidable c] {q r : Scanner} (hq : q.Keeps m cuts) (hr : r.Keeps m cuts) :
    (if c then q else r).Keeps m cuts := by
  split
  · exact hq
  · exact hr

theorem token_ite {c : Prop} [Decidable c] {q r : Scanner} (hq : q.token = p.token)
    (hr : r.token = p.token) : (if c then q else r).token = p.token := by
  split
  · exact hq
  · exact hr

/-- A token that is only passed. -/
theorem leads_next {exprAllowed : Bool} (hq : q.Keeps m cuts) (htoken : q.token = p.token) :
    Ensures (q.next exprAllowed) (Leads m cuts p) :=
  leads_of_ensures (htoken ▸ hq.next_past _)

/-- Whatever the kind of the current token is, a step adds one cut at most, and places that are allowed. -/
theorem Keeps.stepKind (h : p.Keeps m cuts) (hm : m.Fair) (hleft : left.Meets m)
    (hstop : m.stop p.token.prevStop) : Ensures (p.stepKind left) (Leads m cuts p) := by
  unfold Scanner.stepKind
  dsimp only
  cases hkind : p.token.kind
  case identifier | escapedKeyword =>
    refine leads_of_keeps (by simp [hkind]) (by simp [hkind]) fun hstart _ => ?_
    have hword := h.word_of_isName hm (by rw [hkind]; rfl)
    dsimp only
    split
    · exact (h.leave { h.left with }).stepIdentifier hleft hstart hword
    · exact h.stepIdentifier hleft hstart hword
  case templateHead | templateMiddle => exact leads_next (h.push ⟨by simp, by simp, by simp, by simp⟩) rfl
  case kwImport => exact h.stepImport hm hkind _
  case kwExport =>
    refine .require fun hitem => (h.readExport hm hkind).mono ?_
    rintro p' ⟨k, hcut, hkeeps⟩
    refine ⟨[k], .inr ⟨k, rfl, hcut, fun _ => prev_of_atModuleItem hitem⟩, fun hallows =>
      hkeeps hallows.insertion⟩
  case kwVar | kwConst => exact leads_next (.ite (h.startDeclaration none) h) (token_ite rfl rfl)
  case kwFunction => exact leads_next (q := { p with pendingFunction := _ }) { h with } rfl
  case kwClass => exact leads_next (q := { p with pendingClass := _ }) { h with } rfl
  case kwReturn => exact .forbid fun _ => leads_next h rfl
  case kwIf | kwWhile | kwWith | kwSwitch | kwFor => exact leads_next (h.leave { h.left with }) rfl
  case kwCatch =>
    exact leads_of_ensures <| (h.leave { h.left with }).next_past true |>.bind
      fun p₁ h₁ => .ok (h₁.leave { h₁.left with })
  case kwDo | kwElse | kwTry | kwFinally =>
    exact leads_of_ensures <| (h.next_past true).bind fun p₁ h₁ =>
      .ok (h₁.leave { h₁.left with })
  case kwIn => exact leads_next (.ite (h.withTop { h.top with }) h) (token_ite rfl rfl)
  case openParen =>
    refine leads_next (h.push ⟨by simp; split <;> simp, by simp, ?_, by simp⟩) rfl
    intro hhead
    have hparen : left.nextParen = .forHead := by simpa using hhead
    simp [hparen]
  case closeParen =>
    refine (h.stepCloseParen hstop).mono fun p' hp' => ⟨[], .inl rfl, fun hallows => ?_⟩
    exact hp' hallows.loop
  case openBracket =>
    exact leads_of_keeps (by simp [hkind]) (by simp [hkind]) fun hstart _ => h.stepOpenBracket hstart
  case closeBracket => exact leads_of_ensures <| h.stepCloseBracket hstop
  case openBrace =>
    exact leads_of_keeps (by simp [hkind]) (by simp [hkind]) fun hstart _ => h.stepOpenBrace hstart _
  case closeBrace => exact leads_of_ensures <| h.stepCloseBrace hstop
  case semicolon =>
    exact leads_of_ensures <| ((h.endStatement hstop).next_past true).bind fun p₁ h₁ =>
      .ok (h₁.leave { h₁.left with })
  case comma => exact leads_of_ensures <| h.stepComma hstop
  case colon => exact leads_of_ensures <| h.stepColon hstop
  case question => exact leads_next (h.withTop { h.top with }) rfl
  case equalsGreaterThan =>
    exact leads_next (.ite (h.discardWrites _) h) (token_ite (discardWrites_alike _).token rfl)
  case plusPlus | minusMinus =>
    exact leads_of_keeps (by simp [hkind]) (by simp [hkind]) fun hstart hend =>
      h.stepUpdate hleft.ref hstart hend
  case dotDotDot => exact leads_next (.ite (h.withTop { h.top with }) h) (token_ite rfl rfl)
  case privateName | string | number | bigInteger | template | regExp | templateTail | kwThis | kwSuper | kwNull
    | kwTrue | kwFalse | dot | questionDot => exact leads_next h rfl
  -- operators
  all_goals first | exact leads_next h rfl | exact leads_of_ensures <| h.stepAssign hleft.ref

/-- Only the token, what came before it, and the frame that was closed last matter to a step. -/
theorem Leads.of_alike (h : Alike p q) (hq : Leads m cuts q p') : Leads m cuts p p' := by
  obtain ⟨new, hnew, hkeeps⟩ := hq
  have htoken := h.token
  refine ⟨new, ?_, fun hallows => ?_⟩
  · obtain hnil | ⟨k, hk, hcut, hbody⟩ := hnew
    · exact .inl hnil
    · refine .inr ⟨k, hk, { hcut with kind := htoken ▸ hcut.kind, start := htoken ▸ hcut.start }, ?_⟩
      rwa [h.prev, h.lastClosed] at hbody
  · rw [← htoken]
    exact hkeeps ⟨htoken ▸ hallows.prevStop, htoken ▸ hallows.token, hallows.insertion, hallows.loop⟩

/-- A step makes one cut at most, and adds no other places than those of the current token and of the
token that it leads to. -/
theorem Keeps.step (h : p.Keeps m cuts) (hm : m.Fair) (hstop : m.stop p.token.prevStop) :
    Ensures p.step (Leads m cuts p) := by
  rw [step_eq_handleToken]
  obtain ⟨h, hleft⟩ := h.settled hstop
  have halike := p.settled_alike
  generalize p.settled = r at h hleft halike
  unfold Scanner.handleToken
  refine Ensures.mono ?_ fun p' => Leads.of_alike halike
  split
  · exact leads_next h rfl
  · split
    · rename_i x hx
      split at hx
      · exact leads_of_ensures <| h.stepKey hm hx
      · cases hx
    · exact h.stepKind hm hleft (halike.token ▸ hstop)

/-! ### Runs -/

/-- Reading the current token again changes its kind and its end only. -/
structure Rereads (p p' : Scanner) : Prop where
  prevStop : p'.token.prevStop = p.token.prevStop
  start : p'.token.start = p.token.start
  prev : p'.prev = p.prev
  lastClosed : p'.lastClosed = p.lastClosed
  openBrace : p.token.kind = .openBrace → p'.token.kind = .openBrace

theorem Rereads.refl (p : Scanner) : Rereads p p := ⟨rfl, rfl, rfl, rfl, id⟩

/-- A slash that is read again as a regular expression starts where it did. -/
theorem asRegExp_rereads (hkind : p.token.kind ≠ .openBrace) :
    Ensures p.lexer.asRegExp fun lx => Rereads p { p with lexer := lx } := by
  intro lx hlx
  obtain ⟨c, stop, -, -, rfl⟩ := Lexer.asRegExp_ok hlx
  exact ⟨rfl, rfl, rfl, rfl, fun h => absurd h hkind⟩

/-- A brace that is read again as the rest of a template starts where it did. -/
theorem asTemplate_rereads (hkind : p.token.kind ≠ .openBrace) :
    Ensures p.lexer.asTemplate fun lx => Rereads p { p with lexer := lx } := by
  intro lx hlx
  obtain ⟨-, kind, units, stop, -, rfl⟩ := Lexer.asTemplate_ok hlx
  exact ⟨rfl, rfl, rfl, rfl, fun h => absurd h hkind⟩

/-- What reading a token again can do. -/
theorem retokenize_ok (h : p.retokenize = .ok q) :
    (q = p ∧ (p.token.kind = .closeBrace → p.top.kind ≠ .template)) ∨
      (∃ lx, (p.token.kind = .slash ∨ p.token.kind = .slashAssign) ∧ p.lexer.asRegExp = .ok lx ∧
        q = { p with lexer := lx }) ∨
      ∃ lx, p.token.kind = .closeBrace ∧ p.top.kind = .template ∧ p.lexer.asTemplate = .ok lx ∧
        q = { (p.closeWrites p.depth).pop with lexer := lx } := by
  -- a slash is read again as a regular expression, whichever of the two tokens it began
  have hslash : p.token.kind = .slash ∨ p.token.kind = .slashAssign →
      (do return { p with lexer := ← p.lexer.asRegExp }) = Except.ok q →
      ∃ lx, (p.token.kind = .slash ∨ p.token.kind = .slashAssign) ∧ p.lexer.asRegExp = .ok lx ∧
        q = { p with lexer := lx } := by
    intro hkind h
    cases hlx : p.lexer.asRegExp with
    | error f => rw [hlx] at h; cases h
    | ok lx => rw [hlx] at h; cases h; exact ⟨lx, hkind, rfl, rfl⟩
  unfold Scanner.retokenize at h
  split at h
  · rename_i hkind
    split at h
    · exact .inr (.inl (hslash (.inl hkind) h))
    · cases h
      exact .inl ⟨rfl, by simp [hkind]⟩
  · rename_i hkind
    split at h
    · exact .inr (.inl (hslash (.inr hkind) h))
    · cases h
      exact .inl ⟨rfl, by simp [hkind]⟩
  · rename_i hkind
    split at h
    · rename_i htop
      dsimp only at h
      rw [pop_alike.lexer, show (p.closeWrites p.depth).lexer = p.lexer from rfl] at h
      cases hlx : p.lexer.asTemplate with
      | error f => rw [hlx] at h; cases h
      | ok lx => rw [hlx] at h; cases h; exact .inr (.inr ⟨lx, hkind, htop, rfl, rfl⟩)
    · cases h
      exact .inl ⟨rfl, fun _ => ‹_›⟩
  · cases h
    exact .inl ⟨rfl, fun hkind => absurd hkind ‹_›⟩

/-- Reading the current token again keeps what is remembered. -/
theorem Keeps.retokenize (h : p.Keeps m cuts) (hstop : m.stop p.token.prevStop) :
    Ensures p.retokenize fun p' => p'.Keeps m cuts ∧ Rereads p p' := by
  intro p' hp'
  have hlexer : ∀ {q : Scanner} {lx : Lexer}, q.Keeps m cuts → Lexer.Met m.source lx →
      lx.token.prevStop = q.token.prevStop → Keeps m cuts { q with lexer := lx } :=
    fun hq hmet hprev => { hq with lexer := hmet, floor := hprev ▸ hq.floor }
  obtain ⟨rfl, -⟩ | ⟨lx, hkind, hlx, rfl⟩ | ⟨lx, hkind, -, hlx, rfl⟩ := retokenize_ok hp'
  · exact ⟨h, .refl _⟩
  · have hre := asRegExp_rereads (by obtain hk | hk := hkind <;> simp [hk]) lx hlx
    exact ⟨hlexer h (h.lexer.regExp hkind hlx) hre.prevStop, hre⟩
  · -- the brace ends a placeholder: what was opened inside is closed, and the template goes on
    have hre := asTemplate_rereads (by rw [hkind]; simp) lx hlx
    have halike : Alike p (p.closeWrites p.depth).pop :=
      Alike.trans (q := p.closeWrites p.depth) ⟨rfl, rfl, rfl⟩ pop_alike
    refine ⟨hlexer (h.closeWrites hstop p.depth).pop (h.lexer.template hlx) ?_,
      { hre with prev := halike.prev, lastClosed := halike.lastClosed }⟩
    rw [halike.token]
    exact hre.prevStop

/-- What each step of a run preserves holds at the end of the source. -/
theorem run_induct {I : Scanner → Prop}
    (hretokenize : ∀ p, I p → Ensures p.retokenize I)
    (hstep : ∀ p, I p → p.token.kind ≠ .endOfFile → Ensures p.step I) (fuel : Nat) (h : I p) :
    Ensures (p.run fuel) I := by
  induction fuel generalizing p with
  | zero => exact .error
  | succ fuel ih =>
      rw [Scanner.run]
      refine (hretokenize p h).bind fun p₁ h₁ => ?_
      split
      · exact .ok h₁
      · rename_i hkind
        exact (hstep p₁ h₁ hkind).bind fun p₂ h₂ => ih h₂

/-- At the end nothing is open, and the last increment or decrement becomes a write. -/
theorem finish_ok {o : Outline} (h : p.finish = .ok o) : p.below = [] ∧ ∃ q,
    (q = p ∨ ∃ u ∈ p.pendingUpdate, q = p.addWrite [u.2] u.1 p.token.prevStop) ∧ o = (q.closeWrites 0).outline := by
  unfold Scanner.finish at h
  split at h
  · rename_i hbelow
    cases h
    refine ⟨List.isEmpty_iff.1 hbelow, _, ?_, rfl⟩
    split
    · exact .inr ⟨_, ‹_›, rfl⟩
    · exact .inl rfl
  · cases h

/-- At the end of the source the last assignments end with the last token. -/
theorem Keeps.finish (h : p.Keeps m cuts) (hstop : m.stop p.token.prevStop) :
    Ensures p.finish fun o => o.Meets m ∧ o.cuts.Perm cuts := by
  intro o ho
  obtain ⟨-, q, hq, rfl⟩ := finish_ok ho
  have hkeeps : q.Keeps m cuts ∧ q.token = p.token := by
    obtain rfl | ⟨u, hu, rfl⟩ := hq
    · exact ⟨h, rfl⟩
    · exact ⟨h.addWrite (h.pending u hu) (.inr hstop), rfl⟩
  have hclosed := hkeeps.1.closeWrites (hkeeps.2 ▸ hstop) 0
  exact ⟨hclosed.outline, hclosed.cuts⟩

end ModuleSystem.Scanner

namespace ModuleSystem.Outline

variable {s : Source}

/-! ### The beginning of a source -/

/-- The scanner before it handles the first token of a source. -/
def opening (s : Source) : Except Fault Scanner := do
  let lexer ← Lexer.start s .script
  if lexer.token.kind = .hashbang then
    return { lexer := ← lexer.next, outline := { hashbang := lexer.token.range } }
  else return { lexer }

/-- A source is opened with its first token, or with the one behind its first line if that names an
interpreter. -/
inductive Opening (s : Source) : Scanner → Prop
  | plain {lx : Lexer} (start : Lexer.start s .script = .ok lx) : Opening s { lexer := lx }
  | hashbang {lx lx' : Lexer} (start : Lexer.start s .script = .ok lx) (kind : lx.token.kind = .hashbang)
      (moved : lx.next = .ok lx') : Opening s { lexer := lx', outline := { hashbang := lx.token.range } }

/-- A source that is opened is opened in one of the two ways. -/
theorem opening_ok : Ensures (opening s) (Opening s) := by
  unfold opening
  refine .bind_ok fun lx start => ?_
  split
  · exact .bind_ok fun lx' moved => .ok (.hashbang start ‹_› moved)
  · exact .ok (.plain start)

/-- Reading the rest of a source. -/
def readRest (fuel : Nat) (p : Scanner) : Except Fault Outline := p.run fuel >>= Scanner.finish

/-- Scanning is opening a source and reading the rest of it. -/
theorem scan_eq (s : Source) : scan s = opening s >>= readRest (s.contents.length + 2) := by
  unfold scan opening readRest
  cases Lexer.start s .script with
  | error e => rfl
  | ok lx =>
      by_cases hkind : lx.token.kind = .hashbang
      · simp only [bind, Except.bind, pure, Except.pure, hkind, if_true]
        cases lx.next <;> rfl
      · simp only [bind, Except.bind, pure, Except.pure, hkind, if_false]

end ModuleSystem.Outline
