import ModuleSystem.Proofs.Outline.Ledger

/-!
# The scanner — what a run notes down

`Outline.Handles s p` says that the scanner handles the current token of `p` when it reads the source
`s`.  A step keeps the notes in order and notes the name of an identifier that it handles, unless the
identifier follows a dot (`Tallies.step`); so at the end of the source all these names are noted.

* `Tallies.step`, `Tallies.retokenize`, `Tallies.finish`: the parts of a run.
* `Outline.scan_tallies`: the notes of an outline.
* `Outline.mem_usedNames`: the name of an identifier that was handled occurs in the outline.
-/

namespace ModuleSystem

namespace Scanner

variable {l : Ledger} {p p' q : Scanner} {left : Leftover}

/-! ### Before the token is handled -/

/-- The write of an increment notes no name. -/
theorem Tallies.settleUpdate (h : p.Tallies l) : p.settleUpdate.Tallies l := by
  unfold Scanner.settleUpdate
  split
  · exact h
  · dsimp only
    split <;> exact { h with }

/-- A key without a value that is bound was noted when it was read. -/
theorem Tallies.settleShorthand (h : p.Tallies l) : p.settleShorthand.Tallies l := by
  unfold Scanner.settleShorthand
  split
  · exact h
  · rename_i b hb
    have hnoted := h.top b (by rw [hb]; rfl)
    have hnone : ∀ q : Scanner, q.Tallies l →
        Tallies l { q with top := { q.top with shorthand := none } } := fun q hq =>
      hq.withTop (by simp)
    refine hnone _ ?_
    split
    · exact h.addBinding hnoted _
    · split
      · exact h.withTop h.top
      · exact h

/-- The variables of a literal are collected in its frame, and no key among them. -/
theorem Tallies.collectTargets (h : p.Tallies l) : (p.collectTargets left).Tallies l := by
  unfold Scanner.collectTargets
  split
  · exact h.withTop h.top
  · exact h

theorem Tallies.noteLoop (h : p.Tallies l) (ref : Option Binding) : (p.noteLoop ref).Tallies l := by
  unfold Scanner.noteLoop
  split
  · exact h.withTop h.top
  · exact h

/-- Whether `let` was a variable or starts a declaration, the notes stay. -/
theorem Tallies.settleLet (h : p.Tallies l) (left : Leftover) : (p.settleLet left).1.Tallies l := by
  unfold Scanner.settleLet
  split
  · dsimp only
    split <;> exact { h with }
  · exact h

/-- The end of a statement at a line terminator notes nothing. -/
theorem Tallies.settleLine (h : p.Tallies l) (left : Leftover) : (p.settleLine left).1.Tallies l := by
  unfold Scanner.settleLine
  split
  · exact h.endStatement
  · exact h

/-- Before the current token is handled, the notes are what they were. -/
theorem Tallies.settled (h : p.Tallies l) : p.settled.1.Tallies l := by
  have h₀ : Tallies l { p with left := {} } := { h with }
  have h₂ := (@Tallies.collectTargets _ _ p.left h₀.settleUpdate.settleShorthand).noteLoop p.left.ref
  exact (h₂.settleLet p.left).settleLine _

/-! ### Names -/

/-- The name of an identifier that is the current token. -/
def mentions (p : Scanner) : List Text :=
  if p.token.kind = .identifier ∨ p.token.kind = .escapedKeyword then [p.token.name] else []

/-- A token mentions its own name at most. -/
theorem mentions_subset : p.mentions ⊆ [p.token.name] := by
  unfold mentions
  split
  · exact List.Subset.refl _
  · exact List.nil_subset _

/-- What notes the name of the token notes what the token mentions. -/
theorem Tallies.mention (h : q.Tallies (l.note [p.token.name])) : q.Tallies (l.note p.mentions) :=
  h.names_mono fun t ht => by
    obtain ht | ht := List.mem_append.1 ht
    · exact List.mem_append_left _ (mentions_subset ht)
    · exact List.mem_append_right _ ht

/-- The token before the current one is a dot. -/
def AfterDot (p : Scanner) : Prop := p.prev = .dot ∨ p.prev = .questionDot

/-- A dot that is the current token ends at a place of the ledger. -/
def DotsAt (l : Ledger) (p : Scanner) : Prop :=
  p.token.kind = .dot ∨ p.token.kind = .questionDot → l.dots p.token.stop

theorem DotsAt.of_token (h : p.DotsAt l) (htoken : q.token = p.token) : q.DotsAt l := by
  rwa [DotsAt, htoken]

/-- A variable whose name is noted is handled without another name. -/
theorem Tallies.stepVariable (h : p.Tallies l) (hdots : p.DotsAt l)
    (hb : Binding.Noted l.source p.outline.usedNames ⟨p.token.name, p.token.start⟩) :
    Ensures (p.stepVariable left) (Tallies l) := by
  unfold Scanner.stepVariable
  extract_lets b _ _ pDecl pPattern p₁ isElement
  split
  · have hdecl : pDecl.Tallies l := h.withTop h.top
    exact (hdecl.addBinding (b := b) hb p.below.length).next
      (hdots.of_token (addBinding_alike p.below.length b).token) false
  split
  · have hpattern : pPattern.Tallies l := h.withTop h.top
    exact (hpattern.addBinding (b := b) hb p.top.declFrame).next
      (hdots.of_token (addBinding_alike p.top.declFrame b).token) false
  · have h₁ : p₁.Tallies l ∧ p₁.token = p.token := by
      dsimp only [p₁]
      split
      · exact ⟨h.withTop h.top, rfl⟩
      · exact ⟨h, rfl⟩
    exact (h₁.1.next (hdots.of_token h₁.2) false).bind fun p₂ h₂ => .ok { h₂ with }

/-- An identifier notes its name. -/
theorem Tallies.stepIdentifier (h : p.Tallies l) (hdots : p.DotsAt l) :
    Ensures (p.stepIdentifier left) (Tallies (l.note [p.token.name])) := by
  have huse := h.use p.token.name
  have hb : Binding.Noted l.source (p.use p.token.name).outline.usedNames ⟨p.token.name, p.token.start⟩ :=
    ⟨List.mem_cons_self, h.start_le⟩
  unfold Scanner.stepIdentifier
  extract_lets t p₁ isWord
  split
  · exact Tallies.next (p := { p₁ with pendingLet := true }) { huse with } hdots true
  split
  · split
    · exact .error
    · exact huse.next hdots true
  split
  · split
    · exact .error
    · exact huse.next hdots true
  split
  · exact (huse.leave _).stepVariable hdots hb
  · exact huse.stepVariable hdots hb

/-- A key notes its name, as it may be a variable as well. -/
theorem Tallies.stepKey (h : p.Tallies l) (hdots : p.DotsAt l) {x : Except Fault Scanner}
    (hx : p.stepKey = some x) : Ensures x (Tallies (l.note p.mentions)) := by
  unfold Scanner.stepKey at hx
  extract_lets t _ p₁ p₂ at hx
  have hnone : ∀ q : Scanner, q.Tallies l → p.token.kind ≠ .identifier → p.token.kind ≠ .escapedKeyword →
      q.Tallies (l.note p.mentions) := by
    intro q hq h₁ h₂
    rw [mentions, if_neg (by simp [h₁, h₂])]
    exact hq
  split at hx
  · cases hx
    have h₁ : (p₁.use t.name).Tallies (l.note [t.name]) ∧ p₁.token = p.token := by
      dsimp only [p₁]
      split
      · refine ⟨{ h.use t.name with top := ?_ }, rfl⟩
        rintro _ ⟨⟩
        exact ⟨List.mem_cons_self, h.start_le⟩
      · exact ⟨h.use t.name, rfl⟩
    have h₂ : (p₂.use t.name).Tallies (l.note [t.name]) ∧ p₂.token = p.token := by
      dsimp only [p₂]
      split
      · exact ⟨{ h₁.1 with }, h₁.2⟩
      · exact h₁
    exact (h₂.1.next (hdots.of_token h₂.2) false).mono fun p' hp' => hp'.mention
  · split at hx
    case h_6 => cases hx
    case h_5 hkind =>
      cases hx
      exact ((h.leave _).next hdots true).mono fun p' hp' => hnone p' hp' (by simp [t, hkind]) (by simp [t, hkind])
    all_goals
      rename_i hkind
      cases hx
      exact (h.next hdots false).mono fun p' hp' => hnone p' hp' (by simp [t, hkind]) (by simp [t, hkind])

/-! ### Operators and brackets -/

theorem Tallies.stepAssign (h : p.Tallies l) (hdots : p.DotsAt l) (ref : Option Binding) :
    Ensures (p.stepAssign ref) (Tallies l) := by
  unfold Scanner.stepAssign
  extract_lets f targets q p₁
  have h₁ : p₁.Tallies l ∧ p₁.token = p.token := by
    dsimp only [p₁]
    split
    · have hq : q.Tallies l := h.discardWrites _
      have htoken : q.token = p.token := (discardWrites_alike _).token
      split
      · exact ⟨hq, htoken⟩
      · exact ⟨hq.startWrite _ _, htoken⟩
    · split
      · exact ⟨h.startWrite _ _, rfl⟩
      · exact ⟨h, rfl⟩
  exact h₁.1.next (hdots.of_token h₁.2) true

theorem Tallies.stepColon (h : p.Tallies l) (hdots : p.DotsAt l) : Ensures p.stepColon (Tallies l) := by
  unfold Scanner.stepColon
  extract_lets kind ternaries p₁
  have h₁ : p₁.Tallies l := h.closeWhile _
  refine ((h₁.withTop (f := { p₁.top with ternaries := ternaries - 1 }) h₁.top).next hdots true).bind
    fun p₂ h₂ => ?_
  split
  · exact .ok (h₂.withTop h₂.top)
  split
  · exact .ok (h₂.leave _)
  · exact .ok h₂

/-- That a pattern is bound notes nothing. -/
theorem Tallies.bindingTarget (h : p.Tallies l) : p.bindingTarget.2.Tallies l := by
  unfold Scanner.bindingTarget
  split
  · exact h.withTop h.top
  split
  · exact h.withTop h.top
  · exact h

/-- A frame that a brace opens remembers no key yet. -/
theorem Tallies.braceFrame_plain (h : p.Tallies l) (stmtStart : Bool) :
    (braceFrame.plain stmtStart p).2.Tallies l ∧ (braceFrame.plain stmtStart p).1.shorthand = none ∧
      (braceFrame.plain stmtStart p).2.token = p.token := by
  unfold braceFrame.plain
  split
  · exact ⟨{ h.discardWrites _ with }, rfl, (discardWrites_alike _).token⟩
  split
  · exact ⟨h, rfl, rfl⟩
  split
  · exact ⟨h, rfl, rfl⟩
  have hbind := h.bindingTarget
  have htoken : p.bindingTarget.2.token = p.token := by
    unfold Scanner.bindingTarget
    split
    · rfl
    · split <;> rfl
  split
  · rename_i declFrame q hq
    rw [hq] at hbind htoken
    exact ⟨hbind, rfl, htoken⟩
  · rename_i q hq
    rw [hq] at hbind htoken
    split
    · exact ⟨hbind, rfl, htoken⟩
    · exact ⟨hbind, rfl, htoken⟩

/-- Nor does the body of a function or class. -/
theorem Tallies.braceFrame (h : p.Tallies l) (stmtStart : Bool) :
    (p.braceFrame stmtStart).2.Tallies l ∧ (p.braceFrame stmtStart).1.shorthand = none ∧
      (p.braceFrame stmtStart).2.token = p.token := by
  unfold Scanner.braceFrame
  split
  · split
    · exact ⟨{ h with }, rfl, rfl⟩
    · exact h.braceFrame_plain stmtStart
  · exact h.braceFrame_plain stmtStart

/-- An opening brace notes nothing. -/
theorem Tallies.stepOpenBrace (h : p.Tallies l) (hdots : p.DotsAt l) (stmtStart : Bool) :
    Ensures (p.stepOpenBrace stmtStart) (Tallies l) := by
  obtain ⟨hq, hshorthand, htoken⟩ := h.braceFrame stmtStart
  unfold Scanner.stepOpenBrace
  refine ((hq.push hshorthand).next (hdots.of_token htoken) true).bind fun p₁ h₁ => ?_
  split <;> exact .ok (h₁.leave _)

/-- A closing brace notes nothing. -/
theorem Tallies.stepCloseBrace (h : p.Tallies l) (hdots : p.DotsAt l) :
    Ensures p.stepCloseBrace (Tallies l) := by
  unfold Scanner.stepCloseBrace
  refine h.close.bind fun p₁ h₁ => ?_
  obtain ⟨h₁, hlexer⟩ := h₁
  have hdots₁ : p₁.DotsAt l := hdots.of_token (congrArg Lexer.token hlexer)
  extract_lets closed parent
  split
  · exact (h₁.next hdots₁ _).bind fun p₂ h₂ => .ok (h₂.leave _)
  · exact (h₁.next hdots₁ _).bind fun p₂ h₂ => .ok (h₂.leave _)
  · exact (h₁.next hdots₁ _).bind fun p₂ h₂ => .ok (h₂.leave _)
  · exact (h₁.leave _).next hdots₁ false
  · exact h₁.next hdots₁ false

theorem Tallies.stepOpenBracket (h : p.Tallies l) (hdots : p.DotsAt l) :
    Ensures p.stepOpenBracket (Tallies l) := by
  have hbind := h.bindingTarget
  have hdots' : p.bindingTarget.2.DotsAt l := by
    unfold Scanner.bindingTarget
    split
    · exact hdots
    · split <;> exact hdots
  unfold Scanner.stepOpenBracket
  split
  · rename_i declFrame q hq
    rw [hq] at hbind hdots'
    exact (hbind.push rfl).next hdots' true
  · rename_i q hq
    rw [hq] at hbind hdots'
    exact (hbind.push rfl).next hdots' true

theorem Tallies.stepCloseBracket (h : p.Tallies l) (hdots : p.DotsAt l) :
    Ensures p.stepCloseBracket (Tallies l) := by
  unfold Scanner.stepCloseBracket
  refine h.close.bind fun p₁ h₁ => ?_
  obtain ⟨h₁, hlexer⟩ := h₁
  have hdots₁ : p₁.DotsAt l := hdots.of_token (congrArg Lexer.token hlexer)
  extract_lets p₂
  dsimp only [p₂]
  split
  · exact (h₁.leave _).next hdots₁ false
  · exact h₁.next hdots₁ false

/-- A closing parenthesis notes nothing, also where it ends the head of a loop. -/
theorem Tallies.stepCloseParen (h : p.Tallies l) (hdots : p.DotsAt l) :
    Ensures p.stepCloseParen (Tallies l) := by
  unfold Scanner.stepCloseParen
  refine h.close.bind fun p₁ h₁ => ?_
  obtain ⟨h₁, hlexer⟩ := h₁
  have hdots₁ : p₁.DotsAt l := hdots.of_token (congrArg Lexer.token hlexer)
  extract_lets closed isStatement
  refine (h₁.next hdots₁ isStatement).bind fun p₂ h₂ => ?_
  extract_lets p₃ loop
  split
  · exact .ok (h₂.leave _)
  · exact .ok { h₂ with }

theorem Tallies.stepComma (h : p.Tallies l) (hdots : p.DotsAt l) : Ensures p.stepComma (Tallies l) := by
  unfold Scanner.stepComma
  extract_lets p₁ _ _ p₂ rest
  refine .forbid fun _ => ?_
  have h₁ : p₁.Tallies l := h.closeWrites _
  have h₂ : p₂.Tallies l ∧ p₂.token = p.token := by
    dsimp only [p₂]
    split
    · exact ⟨h₁.withTop h₁.top, rfl⟩
    · exact ⟨h₁, rfl⟩
  refine (h₂.1.next (hdots.of_token h₂.2) true).bind fun p₃ h₃ => ?_
  split
  · exact .ok (h₃.leave _)
  · exact .ok (h₃.leave _)
  · exact .ok (h₃.withTop h₃.top)
  · exact .ok h₃

theorem Tallies.stepUpdate (h : p.Tallies l) (hdots : p.DotsAt l) (ref : Option Binding) :
    Ensures (p.stepUpdate ref) (Tallies l) := by
  unfold Scanner.stepUpdate
  split
  · exact (h.addWrite _ _ _).next hdots false
  · exact (h.next hdots true).bind fun p₁ h₁ => .ok (h₁.leave _)

/-- The keyword `import` notes names and a record if it starts a statement. -/
theorem Tallies.stepImport (h : p.Tallies l) (hcited : l.cited = []) (stmtStart : Bool) :
    Ensures (p.stepImport stmtStart) (Tallies l) := by
  have hle := h.lexer.places_le
  unfold Scanner.stepImport
  extract_lets keyword
  refine Ensures.bind (P := Tallies (l.within p.token.start)) (fun p₁ hp₁ => ?_) fun p₁ h₁ => ?_
  · have hfloor : p.token.start ≤ p₁.token.prevStop := (prevStop_of_advance hp₁).symm ▸ hle.2.1
    exact { (h.enter h.floor).advance p₁ hp₁ with floor := hfloor }
  have hexit : ∀ p', Completes l p.token.start p' → p'.Tallies l := fun p' hp' =>
    hp'.exit (h.floor.trans hle.1)
  split
  case h_1 hkind =>
    extract_lets _ o
    have hopen : (Scanner.push { p₁ with outline := o } { kind := .dynamicImport }).Tallies
        (l.within p.token.start) := Tallies.push (p := { p₁ with outline := o }) { h₁ with } rfl
    refine (hopen.next_completes ?_ true).bind fun p₂ h₂ => ?_
    · simp [Scanner.push, Scanner.token] at hkind ⊢
      simp [hkind]
    · extract_lets rest
      exact .forbid fun _ => .ok (hexit p₂ h₂)
  · refine h₁.advance.bind fun p₂ h₂ => ?_
    extract_lets _ o p₃ rest
    refine .require fun hmeta => ?_
    have h₃ : p₃.Tallies (l.within p.token.start) := { h₂ with }
    refine (h₃.next_completes ?_ false).mono hexit
    have hkind : p₂.token.kind = .identifier := by
      simp only [Token.isWord, Bool.and_eq_true, beq_iff_eq] at hmeta
      simpa using hmeta.1
    simp [p₃, Scanner.token] at hkind ⊢
    simp [hkind]
  · extract_lets rest
    exact .require fun _ => Ensures.mono (h₁.readImport hcited) hexit

/-- Whatever the kind of the current token is, handling it notes what it mentions. -/
theorem Tallies.stepKind (h : p.Tallies l) (hcited : l.cited = []) (hdots : p.DotsAt l) :
    Ensures (p.stepKind left) (Tallies (l.note p.mentions)) := by
  -- a token that is no identifier
  have hnone : ∀ {x : Except Fault Scanner}, p.token.kind ≠ .identifier →
      p.token.kind ≠ .escapedKeyword → Ensures x (Tallies l) → Ensures x (Tallies (l.note p.mentions)) := by
    intro x h₁ h₂ hx
    rw [mentions, if_neg (by simp [h₁, h₂])]
    exact hx
  unfold Scanner.stepKind
  dsimp only
  cases hkind : p.token.kind
  case identifier | escapedKeyword =>
    refine Ensures.mono (Q := Tallies (l.note [p.token.name])) ?_ fun p' hp' => hp'.mention
    dsimp only
    split
    · exact (h.leave _).stepIdentifier hdots
    · exact h.stepIdentifier hdots
  all_goals refine hnone (by simp [hkind]) (by simp [hkind]) ?_
  case templateHead | templateMiddle => exact (h.push rfl).next hdots true
  case kwImport => exact h.stepImport hcited _
  case kwExport =>
    exact .require fun _ => (h.readExport hcited).mono fun p' hp' =>
      hp'.exit (h.floor.trans h.lexer.places_le.1)
  case kwVar | kwConst =>
    exact (Tallies.ite (h.startDeclaration none) h).next (hdots.of_token (token_ite rfl rfl)) true
  case kwFunction | kwClass | question =>
    refine Tallies.next ?_ ?_ true
    · exact { h with }
    · exact hdots
  case kwReturn => exact .forbid fun _ => h.next hdots true
  case kwIf | kwWhile | kwWith | kwSwitch | kwFor => exact (h.leave _).next hdots true
  case kwCatch => exact ((h.leave _).next hdots true).bind fun p₁ h₁ => .ok (h₁.leave _)
  case kwDo | kwElse | kwTry | kwFinally => exact (h.next hdots true).bind fun p₁ h₁ => .ok (h₁.leave _)
  case kwIn | dotDotDot =>
    refine Tallies.next (.ite ?_ h) ?_ true
    · exact h.withTop h.top
    · exact hdots.of_token (token_ite rfl rfl)
  case openParen => exact (h.push rfl).next hdots true
  case closeParen => exact h.stepCloseParen hdots
  case openBracket => exact h.stepOpenBracket hdots
  case closeBracket => exact h.stepCloseBracket hdots
  case openBrace => exact h.stepOpenBrace hdots _
  case closeBrace => exact h.stepCloseBrace hdots
  case semicolon => exact (h.endStatement.next hdots true).bind fun p₁ h₁ => .ok (h₁.leave _)
  case comma => exact h.stepComma hdots
  case colon => exact h.stepColon hdots
  case equalsGreaterThan =>
    exact (Tallies.ite (h.discardWrites _) h).next
      (hdots.of_token (token_ite (discardWrites_alike _).token rfl)) true
  case plusPlus | minusMinus => exact h.stepUpdate hdots _
  case privateName | string | number | bigInteger | template | regExp | templateTail | kwThis | kwSuper | kwNull
    | kwTrue | kwFalse | dot | questionDot => exact h.next hdots false
  -- operators
  all_goals first | exact h.next hdots true | exact h.stepAssign hdots _

/-- A step notes the name of an identifier, unless that follows a dot. -/
theorem Tallies.step (h : p.Tallies l) (hcited : l.cited = []) (hdots : p.DotsAt l) :
    Ensures p.step fun p' => p'.Tallies l ∧ (¬ p.AfterDot → p'.Tallies (l.note p.mentions)) := by
  rw [step_eq_handleToken]
  -- everything is settled first, and the token stays the same
  have h := h.settled
  have halike := p.settled_alike
  generalize p.settled = r at h halike
  unfold Scanner.handleToken
  have hdots' : r.1.DotsAt l := hdots.of_token halike.token
  have hmentions : r.1.mentions = p.mentions := by rw [mentions, halike.token, mentions]
  have hnoted : ∀ p' : Scanner, p'.Tallies (l.note r.1.mentions) →
      p'.Tallies l ∧ (¬ p.AfterDot → p'.Tallies (l.note p.mentions)) := fun p' hp' =>
    ⟨hp'.names_mono (List.subset_append_right ..), fun _ => hmentions ▸ hp'⟩
  split
  · rename_i hafter
    refine (h.next hdots' false).mono fun p' hp' => ⟨hp', fun hno => absurd ?_ hno⟩
    simp only [Bool.and_eq_true, Bool.or_eq_true, decide_eq_true_eq] at hafter
    rw [AfterDot, ← halike.prev]
    exact hafter.1
  · split
    · rename_i x hx
      split at hx
      · exact (h.stepKey hdots' hx).mono hnoted
      · cases hx
    · exact (h.stepKind hcited hdots').mono hnoted

/-! ### Runs -/

/-- Reading the current token again notes nothing. -/
theorem Tallies.retokenize (h : p.Tallies l) : Ensures p.retokenize (Tallies l) := by
  intro p' hp'
  have hlexer : ∀ {q : Scanner} {lx : Lexer}, q.Tallies l → Lexer.Met l.source lx →
      lx.token.prevStop = q.token.prevStop → Tallies l { q with lexer := lx } :=
    fun hq hmet hprev => { hq with lexer := hmet, floor := hprev ▸ hq.floor, dots := hprev ▸ hq.dots }
  obtain ⟨rfl, -⟩ | ⟨lx, hkind, hlx, rfl⟩ | ⟨lx, hkind, -, hlx, rfl⟩ := retokenize_ok hp'
  · exact h
  · have hre := asRegExp_rereads (by obtain hk | hk := hkind <;> simp [hk]) lx hlx
    exact hlexer h (h.lexer.regExp hkind hlx) hre.prevStop
  · have hre := asTemplate_rereads (by rw [hkind]; simp) lx hlx
    refine hlexer (h.closeWrites p.depth).pop (h.lexer.template hlx) ?_
    rw [(pop_alike (p := p.closeWrites p.depth)).token]
    exact hre.prevStop

/-- Where the places of dots do not matter, every step of a run keeps the notes in order. -/
theorem Tallies.run {floor : Nat} (h : p.Tallies (l.within floor)) (hcited : l.cited = []) (fuel : Nat) :
    Ensures (p.run fuel) (Tallies (l.within floor)) :=
  run_induct (fun _ hp => hp.retokenize)
    (fun _ hp _ => (hp.step hcited fun _ => trivial).mono fun _ hp' => hp'.1) fuel h

end Scanner

namespace Outline

variable {s : Source} {o : Outline} {p p' q : Scanner} {l : Ledger}

/-- The notes of an outline agree with a ledger. -/
structure Tallies (l : Ledger) (o : Outline) : Prop where
  names : l.names ⊆ o.usedNames
  statements : ∀ st ∈ o.statements, st.Noted l.source o.usedNames ∧ st.Cites l.source o.records
  filed : Filed o.records (o.statements.filterMap (·.record?))

/-- At the end of the source the notes of the scanner are those of the outline. -/
theorem finish_tallies (h : p.Tallies l) (hcited : l.cited = []) : Ensures p.finish (Tallies l) := by
  intro o ho
  obtain ⟨-, q, hq, rfl⟩ := Scanner.finish_ok ho
  have htallies : q.Tallies l := by
    obtain rfl | ⟨u, -, rfl⟩ := hq
    · exact h
    · exact h.addWrite _ _ _
  have hfiled : Filed _ (_ ++ l.cited) := htallies.filed
  rw [hcited, List.append_nil] at hfiled
  exact ⟨htallies.names, htallies.statements, hfiled⟩

/-! ### The tokens that are handled -/

/-- The scanner handles the current token of `p` when it reads the source. -/
inductive Handles (s : Source) : Scanner → Prop where
  | first {p p' : Scanner} (hopen : opening s = .ok p) (hread : p.retokenize = .ok p')
      (hend : p'.token.kind ≠ .endOfFile) : Handles s p'
  | next {p q p' : Scanner} (h : Handles s p) (hstep : p.step = .ok q) (hread : q.retokenize = .ok p')
      (hend : p'.token.kind ≠ .endOfFile) : Handles s p'

/-- A dot that is handled ends at this offset. -/
def DotAt (s : Source) (n : Nat) : Prop :=
  ∃ p, Handles s p ∧ (p.token.kind = .dot ∨ p.token.kind = .questionDot) ∧ p.token.stop = n

/-- The ledger of a source. -/
def ledger (s : Source) : Ledger := { source := s, dots := DotAt s }

/-- A source is opened without notes. -/
theorem opening_tallies : Ensures (opening s) (Scanner.Tallies (ledger s)) := by
  have hstart : ∀ (lx : Lexer) (o : Outline), Lexer.Met s lx → o.statements = [] → o.records = [] →
      Scanner.Tallies (ledger s) { lexer := lx, outline := o } := fun lx o hlx hstatements hrecords =>
    { lexer := hlx
      floor := Nat.zero_le _
      dots := by simp
      names := List.nil_subset _
      statements := by simp [hstatements]
      filed := ⟨by simp [hrecords], by simp [hstatements, hrecords, ledger]⟩
      top := by simp
      below := by simp }
  intro p hp
  cases opening_ok p hp with
  | plain start => exact hstart _ _ (.start start) rfl rfl
  | hashbang start _ moved => exact hstart _ _ ((Lexer.Met.start start).next moved) rfl rfl

/-- At every token that is handled the notes are in order. -/
theorem Handles.tallies (h : Handles s p) : p.Tallies (ledger s) := by
  induction h with
  | first hopen hread _ => exact (opening_tallies _ hopen).retokenize _ hread
  | next h hstep hread _ ih =>
      have hdots : ∀ {p}, Handles s p → p.DotsAt (ledger s) := fun hp hkind => ⟨_, hp, hkind, rfl⟩
      exact (ih.step rfl (hdots h) _ hstep).1.retokenize _ hread

/-- After a token that is handled, reading goes on. -/
theorem readRest_step {fuel : Nat} (h : readRest fuel p = .ok o) (hread : p.retokenize = .ok p')
    (hend : p'.token.kind ≠ .endOfFile) : ∃ q fuel', p'.step = .ok q ∧ readRest fuel' q = .ok o := by
  unfold readRest at h
  cases fuel with
  | zero => cases h
  | succ fuel =>
      rw [Scanner.run, hread] at h
      simp only [bind, Except.bind, if_neg hend] at h
      cases hstep : p'.step with
      | error e => rw [hstep] at h; cases h
      | ok q =>
          rw [hstep] at h
          exact ⟨q, fuel, rfl, h⟩

/-- Where a token is handled in a source that has an outline, the step succeeds, and so does the rest. -/
theorem Handles.readRest (h : Handles s p) (ho : scan s = .ok o) :
    ∃ q fuel, p.step = .ok q ∧ readRest fuel q = .ok o := by
  induction h with
  | first hopen hread hend =>
      rw [scan_eq, hopen] at ho
      exact readRest_step ho hread hend
  | next h hstep hread hend ih =>
      obtain ⟨q, fuel, hq, hrest⟩ := ih
      cases hstep.symm.trans hq
      exact readRest_step hrest hread hend

/-- The notes of a source that is scanned agree with its ledger. -/
theorem scan_tallies : Ensures (scan s) (Tallies (ledger s)) := by
  rw [scan_eq]
  refine opening_tallies.bind fun p hp => ?_
  have hrun := Scanner.Tallies.run (hp.enter (Nat.zero_le _)) rfl (s.contents.length + 2)
  refine Ensures.bind hrun fun p' hp' => ?_
  exact (finish_tallies hp' rfl).mono fun o ho => ⟨ho.names, ho.statements, ho.filed⟩

/-- The name of an identifier that is handled occurs, unless it follows a dot. -/
theorem mem_usedNames (h : Handles s p) (hkind : p.token.kind = .identifier ∨ p.token.kind = .escapedKeyword)
    (hdot : ¬ DotAt s p.token.prevStop) (ho : scan s = .ok o) : p.token.name ∈ o.usedNames := by
  have htallies := h.tallies
  obtain ⟨q, fuel, hstep, hrest⟩ := h.readRest ho
  have hq := (htallies.step rfl (fun hk => ⟨p, h, hk, rfl⟩) q hstep).2 fun hafter => hdot (htallies.dots hafter)
  have hrun := Scanner.Tallies.run (hq.enter (Nat.zero_le _)) rfl fuel
  have hread : Ensures (Outline.readRest fuel q) (Tallies (((ledger s).note p.mentions).within 0)) :=
    Ensures.bind hrun fun p' hp' => finish_tallies hp' rfl
  refine (hread o hrest).names (List.mem_append_left _ ?_)
  rw [Scanner.mentions, if_pos hkind]
  exact List.mem_singleton_self _

/-- An outline that is read was scanned and passed all checks. -/
theorem read_scan (h : read s = .ok o) : scan s = .ok o ∧ o.check s = [] := by
  unfold read at h
  split at h
  · cases h
  · rename_i o' hscan
    split at h
    · rename_i hcheck
      cases h
      exact ⟨hscan, List.isEmpty_iff.1 hcheck⟩
    · cases h

end Outline

end ModuleSystem
