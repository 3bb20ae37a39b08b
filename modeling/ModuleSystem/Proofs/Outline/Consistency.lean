import ModuleSystem.Proofs.Outline.Frames

/-!
# The scanner — its indices stay in range

A turn keeps the frames and the pending assignments in order, whatever the tokens are and however the turn ends.
So wherever the scanner uses an index, on its writes, its frames or its statements, the index is in range, and
the frame of the module is never left.

* `Tracks.settled`, `Settled.handleToken`: the two halves of a step.
* `Tracks.step`, `Tracks.retokenize`: a turn keeps the invariant.
* `Outline.Reached s p`: the states that scanning comes to.
* `indices_in_range`: there, all indices are in range.
-/

namespace ModuleSystem

namespace Scanner

variable {s : Source} {p p' q r : Scanner} {left : Leftover} {ts us : List Token}

/-! ### What is settled -/

/-- An increment before a variable ends with the variable, unless the variable is only part of its operand. -/
theorem Tracks.settleUpdate (h : p.Tracks s ts) : ({ p with left := {} }.settleUpdate).Settled s ts p.left := by
  have hsettled : ∀ q : Scanner, q = { p with left := {}, pendingUpdate := none, outline := q.outline } →
      q.Holds ts q.hung → q.Settled s ts p.left := by
    intro q hq hholds
    rw [hq] at hholds ⊢
    exact
      { met := h.met, last := h.last, holds := hholds, closed := h.closed, ref := h.ref, update := h.update
        cleared := ⟨rfl, rfl, rfl⟩ }
  unfold Scanner.settleUpdate
  split
  · rename_i hpending
    have hnote := congrArg (fun u => ({ p with left := {}, pendingUpdate := u } : Scanner)) hpending
    exact hsettled _ hnote { h.holds with }
  · rename_i start b hpending
    dsimp only
    split
    · exact hsettled _ rfl { h.holds with }
    · refine hsettled _ rfl (Holds.addWrite (p := { p with left := {}, pendingUpdate := none }) { h.holds with } ?_)
      exact (h.pending _ hpending).wrapped h.last

/-- What was left behind may be forgotten. -/
theorem Settled.with_left (h : p.Settled s ts left) {left' : Leftover} (href : left'.ref = none ∨ left'.ref = left.ref)
    (hupdate : left'.update = left.update) : p.Settled s ts left' :=
  { h with
    ref := by
      obtain href | href := href
      · simp [href]
      · exact href ▸ h.ref
    update := hupdate ▸ h.update }

/-- Whether `let` was a variable or starts a declaration, what is settled stays settled. -/
theorem Settled.settleLet (h : p.Settled s ts left) : (p.settleLet left).1.Settled s ts (p.settleLet left).2 := by
  have hp := h.of_retains (retains_settleLet left) settleLet_alike
  refine hp.with_left ?_ ?_
  all_goals
    unfold Scanner.settleLet
    split
    · dsimp only
      split <;> simp
    · simp

theorem resumes_of_startsStatement {k : TokenKind} (h : startsStatement k = true) : k.resumes = false := by
  cases k <;> first | rfl | cases h

/-- At the end of a statement all assignments of its depth end with the last token. -/
theorem Settled.endStatement (h : p.Settled s ts left) (hresumes : p.token.kind.resumes = false) :
    p.endStatement.Settled s ts left :=
  (h.closeWrites hresumes).of_retains (retains_withTop rfl rfl rfl nofun) ⟨rfl, rfl, rfl⟩

/-- A line terminator may end the statement before it, and with it its assignments. -/
theorem Settled.settleLine (h : p.Settled s ts left) : (p.settleLine left).1.Settled s ts (p.settleLine left).2 := by
  unfold Scanner.settleLine
  split
  · rename_i hstarts
    simp only [Bool.and_eq_true] at hstarts
    refine (h.endStatement (resumes_of_startsStatement hstarts.1.2)).with_left (.inl ?_) ?_
    all_goals
      dsimp only
      split <;> rfl
  · exact h

/-- Everything is settled before the current token is handled. -/
theorem Tracks.settled (h : p.Tracks s ts) : p.settled.1.Settled s ts p.settled.2 := by
  have h₁ := h.settleUpdate.of_retains retains_settleShorthand settleShorthand_alike
  have h₂ := h₁.of_retains (retains_collectTargets p.left) collectTargets_alike
  exact (h₂.of_retains (retains_noteLoop p.left.ref) noteLoop_alike).settleLet.settleLine

/-! ### Variables and keys -/

/-- A key is passed over like any other name. -/
theorem Settled.stepKey (h : p.Settled s ts left) {x : Except Fault Scanner} (hx : p.stepKey = some x) :
    Ensures x (Gets s ts p) := by
  unfold Scanner.stepKey at hx
  extract_lets t _ p₁ p₂ at hx
  split at hx
  · rename_i hname
    cases hx
    have h₁ : Retains p p₁ ∧ p₁.lexer = p.lexer := by
      dsimp only [p₁]
      split
      · exact ⟨retains_withTop rfl rfl rfl fun _ => id, rfl⟩
      · exact ⟨.refl p, rfl⟩
    have h₂ : Retains p p₂ ∧ p₂.lexer = p.lexer := by
      dsimp only [p₂]
      split
      · exact ⟨h₁.1.trans (retains_leave rfl rfl), h₁.2⟩
      · exact h₁
    exact h.next_of_retains (TokenKind.isPlain_of_isName hname) (h₂.1.trans (retains_use t.name)) h₂.2 false
  · split at hx
    case h_6 => cases hx
    case h_5 hkind =>
      cases hx
      exact h.next_of_retains (by rw [hkind]; rfl) (retains_leave rfl rfl) rfl true
    all_goals
      rename_i hkind
      cases hx
      exact h.next (by rw [hkind]; rfl) false

/-- A variable is noted with its place, from which on the tokens are in balance. -/
theorem Settled.stepVariable (h : p.Settled s ts left) (hplain : p.token.kind.isPlain = true) :
    Ensures (p.stepVariable left) (Gets s ts p) := by
  unfold Scanner.stepVariable
  extract_lets b _ _ pDecl pPattern p₁ isElement
  split
  · have hdecl : Retains p pDecl := retains_withTop rfl rfl rfl fun _ => id
    exact h.next_of_retains hplain (hdecl.trans (retains_addBinding _ b))
      (addBinding_alike p.below.length b).lexer false
  split
  · have hpattern : Retains p pPattern := retains_withTop rfl rfl rfl fun _ => id
    exact h.next_of_retains hplain (hpattern.trans (retains_addBinding _ b)) (addBinding_alike p.top.declFrame b).lexer
      false
  · have h₁ : Poised s ts p p₁ := by
      refine (h.poised hplain).of_retains (retains_ite (retains_withTop rfl rfl rfl fun _ => id) (.refl p)) ?_
      dsimp only [p₁]
      split <;> rfl
    refine (h₁.next false).bind fun p₂ h₂ => .ok ⟨[p.token], h₂.1, ?_⟩
    -- the variable may be assigned, and an increment or decrement before it goes up to it
    refine h₂.2.note ?_ h₂.2.update ?_
    · rintro _ ⟨⟩
      exact .single (Bracket.pass_plain hplain)
    · intro u hu
      obtain ⟨n, hn, rfl⟩ := Option.map_eq_some_iff.1 hu
      exact (h.update n hn).concat (Bracket.pass_plain hplain)

/-- An identifier is a variable, or a word with a meaning of its own. -/
theorem Settled.stepIdentifier (h : p.Settled s ts left) (hplain : p.token.kind.isPlain = true) :
    Ensures (p.stepIdentifier left) (Gets s ts p) := by
  have huse := h.of_retains (retains_use p.token.name) ⟨rfl, rfl, rfl⟩
  unfold Scanner.stepIdentifier
  extract_lets t p₁ isWord
  split
  · exact huse.next_of_retains (q := { p₁ with pendingLet := true }) hplain { Retains.refl p₁ with } rfl true
  split
  · split
    · exact .error
    · exact huse.next hplain true
  split
  · split
    · exact .error
    · exact huse.next hplain true
  split
  · exact (huse.of_retains (q := p₁.leave _) (retains_leave rfl rfl) ⟨rfl, rfl, rfl⟩).stepVariable hplain
  · exact huse.stepVariable hplain

/-! ### Operators -/

/-- An assignment opens a write where its target started, at the depth of the operator. -/
theorem Settled.stepAssign (h : p.Settled s ts left) (hplain : p.token.kind.isPlain = true) :
    Ensures (p.stepAssign left.ref) (Gets s ts p) := by
  have hresumes := TokenKind.resumes_of_isPlain hplain
  unfold Scanner.stepAssign
  extract_lets f targets q p₁
  have h₁ : p₁.Settled s ts left ∧ p₁.lexer = p.lexer := by
    dsimp only [p₁]
    split
    · rename_i hpattern
      have halike : Alike p q := discardWrites_alike _
      have hq : q.Settled s ts left := h.discardWrites _
      split
      · exact ⟨hq, halike.lexer⟩
      · refine ⟨hq.startWrite (halike.token ▸ hresumes) ?_, halike.lexer⟩
        refine h.closed ?_
        simp only [Bool.and_eq_true, Bool.or_eq_true, decide_eq_true_eq] at hpattern
        exact hpattern.2.imp And.left And.left
    · split
      · rename_i b hb
        exact ⟨h.startWrite hresumes (h.ref b hb), rfl⟩
      · exact ⟨h, rfl⟩
  exact (h₁.1.next (by rwa [Scanner.token, h₁.2]) true).mono fun p' hp' => hp'.of_lexer h₁.2

/-- A colon ends the assignments in the branch of a conditional before it. -/
theorem Settled.stepColon (h : p.Settled s ts left) (hkind : p.token.kind = .colon) :
    Ensures p.stepColon (Gets s ts p) := by
  unfold Scanner.stepColon
  extract_lets kind ternaries p₁
  have h₁ : p₁.Settled s ts left := by
    refine h.closeWhile (by rw [hkind]; rfl) fun c _ hc => ?_
    simp only [Bool.and_eq_true, decide_eq_true_eq] at hc
    exact hc.1.ge
  refine (h₁.next_of_retains (q := { p₁ with top := { p₁.top with ternaries := ternaries - 1 } })
    (by rw [show p₁.token.kind = .colon from hkind]; rfl) (retains_withTop rfl rfl rfl fun _ => id) rfl true).bind
    fun p₂ h₂ => ?_
  replace h₂ : Gets s ts p p₂ := h₂
  split
  · exact .ok (h₂.of_retains (retains_withTop rfl rfl rfl fun _ => id) ⟨rfl, rfl, rfl⟩)
  split
  · exact .ok (h₂.leave rfl rfl)
  · exact .ok h₂

/-- A comma ends the assignments of its depth. -/
theorem Settled.stepComma (h : p.Settled s ts left) (hkind : p.token.kind = .comma) :
    Ensures p.stepComma (Gets s ts p) := by
  unfold Scanner.stepComma
  extract_lets p₁ _ _ p₂ rest
  refine .forbid fun _ => ?_
  have h₁ : p₁.Settled s ts left := h.closeWrites (by rw [hkind]; rfl)
  have h₂ : Retains p₁ p₂ ∧ p₂.lexer = p.lexer := by
    dsimp only [p₂]
    split
    · exact ⟨retains_withTop rfl rfl rfl fun _ => id, rfl⟩
    · exact ⟨.refl p₁, rfl⟩
  refine (h₁.next_of_retains (by rw [show p₁.token.kind = .comma from hkind]; rfl) h₂.1 h₂.2 true).bind fun p₃ h₃ => ?_
  replace h₃ : Gets s ts p p₃ := h₃
  split
  · exact .ok (h₃.leave rfl rfl)
  · exact .ok (h₃.leave rfl rfl)
  · exact .ok (h₃.of_retains (retains_withTop rfl rfl rfl fun _ => id) ⟨rfl, rfl, rfl⟩)
  · exact .ok h₃

/-- An increment behind its variable is a write of the two tokens. -/
theorem Settled.stepUpdate (h : p.Settled s ts left) (hplain : p.token.kind.isPlain = true) :
    Ensures (p.stepUpdate left.ref) (Gets s ts p) := by
  have hpoised := h.poised hplain
  unfold Scanner.stepUpdate
  split
  · rename_i b hb _
    have hwrapped := ((h.ref b hb).concat (Bracket.pass_plain hplain)).wrapped (m := p.token.stop) (by simp)
    exact Poised.gets (q := p.addWrite [b] b.start p.token.stop) { hpoised with
      holds := hpoised.holds.addWrite hwrapped
      cleared := ⟨h.cleared.ref, h.cleared.update, h.cleared.pending⟩ } false
  · refine (hpoised.next true).bind fun p₁ h₁ => .ok ⟨[p.token], h₁.1, ?_⟩
    refine h₁.2.note h₁.2.ref ?_ h₁.2.pending
    rintro _ ⟨⟩
    exact .single (Bracket.pass_plain hplain)

/-! ### Brackets -/

/-- A bracket that closes the innermost frame. -/
theorem Settled.poised_close (h : p.Settled s ts left)
    (htemplate : p.token.kind = .closeBrace → p.top.kind ≠ .template) : Ensures p.close (Poised s ts p) := by
  by_cases hcloser : p.top.kind.closer = p.token.kind
  · have hresumes : p.token.kind.resumes = false := by
      rw [← hcloser]
      cases p.top.kind <;> rfl
    refine ((h.hung_eq_nil hresumes).close h.last fun htop => ?_).mono fun q hq => ?_
    · exact htemplate (by rw [← hcloser, htop]; rfl) htop
    · obtain ⟨hholds, hlexer, hleft, hpending, hclosed⟩ := hq
      exact
        { met := h.met
          isLast := by
            rw [Token.isLast, ← hcloser]
            cases p.top.kind <;> rfl
          lexer := hlexer
          holds := hholds
          closed := fun _ => hclosed
          cleared :=
            ⟨by rw [hleft, h.cleared.ref], by rw [hleft, h.cleared.update], by rw [hpending, h.cleared.pending]⟩ }
  · unfold Scanner.close
    rw [if_pos (by simp [hcloser])]
    exact .error

/-- A pattern that is bound belongs to a frame that is open. -/
theorem Settled.bindingTarget (h : p.Settled s ts left) :
    Retains p p.bindingTarget.2 ∧ Alike p p.bindingTarget.2 ∧ ∀ d ∈ p.bindingTarget.1, d ≤ p.below.length := by
  unfold Scanner.bindingTarget
  split
  · exact ⟨retains_withTop rfl rfl rfl fun _ => id, ⟨rfl, rfl, rfl⟩, by simp⟩
  split
  · rename_i hpattern
    simp only [Bool.and_eq_true] at hpattern
    refine ⟨retains_withTop rfl rfl rfl fun _ => id, ⟨rfl, rfl, rfl⟩, ?_⟩
    rintro _ ⟨⟩
    exact (h.holds.patterns.1 hpattern.1).le
  · exact ⟨.refl p, ⟨rfl, rfl, rfl⟩, by simp⟩

/-- The frame of a brace, and the scanner that opens it. -/
structure OpensBrace (s : Source) (ts : List Token) (left : Leftover) (p : Scanner) (r : Frame × Scanner) : Prop where
  settled : r.2.Settled s ts left
  lexer : r.2.lexer = p.lexer
  bracket : r.1.kind.toBracket = .brace
  pattern : r.1.kind.isPattern = true → r.1.declFrame ≤ r.2.below.length
  export? : r.1.decl.export? = none

/-- Whatever a brace opens, if it opens no body that is expected, the frames stay. -/
theorem Settled.braceFrame_plain (h : p.Settled s ts left) (stmtStart : Bool) :
    OpensBrace s ts left p (braceFrame.plain stmtStart p) := by
  unfold braceFrame.plain
  split
  · refine ⟨?_, (discardWrites_alike _).lexer, rfl, nofun, rfl⟩
    exact (h.discardWrites p.lastClosed.writeCount).of_retains { Retains.refl _ with } ⟨rfl, rfl, rfl⟩
  split
  · exact ⟨h, rfl, rfl, nofun, rfl⟩
  split
  · exact ⟨h, rfl, rfl, nofun, rfl⟩
  obtain ⟨hretains, halike, hdeclFrame⟩ := h.bindingTarget
  split
  · rename_i declFrame q hq
    rw [hq] at hretains halike hdeclFrame
    exact ⟨h.of_retains hretains halike, halike.lexer, rfl, fun _ => hretains.below ▸ hdeclFrame _ rfl, rfl⟩
  · rename_i q hq
    rw [hq] at hretains halike
    have hq := h.of_retains hretains halike
    split
    · exact ⟨hq, halike.lexer, rfl, nofun, rfl⟩
    · exact ⟨hq, halike.lexer, rfl, nofun, rfl⟩

/-- Nor do they change if it opens the body of a function or class. -/
theorem Settled.braceFrame (h : p.Settled s ts left) (stmtStart : Bool) :
    OpensBrace s ts left p (p.braceFrame stmtStart) := by
  unfold Scanner.braceFrame
  split
  · split
    · exact ⟨h.of_retains { Retains.refl p with } ⟨rfl, rfl, rfl⟩, rfl, rfl, nofun, rfl⟩
    · exact h.braceFrame_plain stmtStart
  · exact h.braceFrame_plain stmtStart

/-- An opening brace opens a frame, and all that is in order stays so within it. -/
theorem Settled.stepOpenBrace (h : p.Settled s ts left) (hkind : p.token.kind = .openBrace) (stmtStart : Bool) :
    Ensures (p.stepOpenBrace stmtStart) (Gets s ts p) := by
  obtain ⟨hsettled, hlexer, hbracket, hpattern, hexport⟩ := h.braceFrame stmtStart
  have hopens : (p.braceFrame stmtStart).2.token.kind = .openBrace := by rwa [Scanner.token, hlexer]
  unfold Scanner.stepOpenBrace
  refine ((hsettled.poised_open (b := .brace) (by rw [hopens]; rfl) (by rw [hopens]; rfl) hbracket hpattern
    hexport).gets true).bind fun p₁ h₁ => ?_
  replace h₁ := h₁.of_lexer hlexer
  split <;> exact .ok (h₁.leave rfl rfl)

/-- A closing brace closes the frame of an opening one, with the assignments in it. -/
theorem Settled.stepCloseBrace (h : p.Settled s ts left)
    (htemplate : p.token.kind = .closeBrace → p.top.kind ≠ .template) : Ensures p.stepCloseBrace (Gets s ts p) := by
  unfold Scanner.stepCloseBrace
  refine (h.poised_close htemplate).bind fun p₁ h₁ => ?_
  extract_lets closed parent
  split
  case h_4 => exact (h₁.of_retains (r := p₁.leave _) (retains_leave rfl rfl) rfl).gets false
  case h_5 => exact h₁.gets false
  all_goals exact (h₁.gets _).bind fun p₂ h₂ => .ok (h₂.leave rfl rfl)

/-- An opening bracket opens a literal, an index or a pattern. -/
theorem Settled.stepOpenBracket (h : p.Settled s ts left) (hkind : p.token.kind = .openBracket) :
    Ensures p.stepOpenBracket (Gets s ts p) := by
  obtain ⟨hretains, halike, hdeclFrame⟩ := h.bindingTarget
  have hopen : ∀ {q : Scanner} {f : Frame}, Retains p q → Alike p q → f.kind.toBracket = .square →
      (f.kind.isPattern = true → f.declFrame ≤ q.below.length) → f.decl.export? = none →
      Ensures ((q.push f).next true) (Gets s ts p) := by
    intro q f hretains halike hf hpattern hexport
    have hopens : q.token.kind = .openBracket := by rwa [halike.token]
    exact (((h.of_retains hretains halike).poised_open (b := .square) (by rw [hopens]; rfl) (by rw [hopens]; rfl) hf
      hpattern hexport).gets true).mono fun p' hp' => hp'.of_lexer halike.lexer
  unfold Scanner.stepOpenBracket
  split
  · rename_i declFrame q hq
    rw [hq] at hretains halike hdeclFrame
    exact hopen hretains halike rfl (fun _ => hretains.below ▸ hdeclFrame _ rfl) rfl
  · rename_i q hq
    rw [hq] at hretains halike
    exact hopen hretains halike rfl nofun rfl

/-- A closing bracket closes the frame of an opening one, with the assignments in it. -/
theorem Settled.stepCloseBracket (h : p.Settled s ts left) (hkind : p.token.kind = .closeBracket) :
    Ensures p.stepCloseBracket (Gets s ts p) := by
  unfold Scanner.stepCloseBracket
  refine (h.poised_close (by simp [hkind])).bind fun p₁ h₁ => ?_
  extract_lets p₂
  dsimp only [p₂]
  split
  · exact (h₁.of_retains (r := p₁.leave _) (retains_leave rfl rfl) rfl).gets false
  · exact h₁.gets false

/-- A closing parenthesis may end the head of a loop; the writes of its parameters are discarded before a
brace. -/
theorem Settled.stepCloseParen (h : p.Settled s ts left) (hkind : p.token.kind = .closeParen) :
    Ensures p.stepCloseParen (Gets s ts p) := by
  unfold Scanner.stepCloseParen
  refine (h.poised_close (by simp [hkind])).bind fun p₁ h₁ => ?_
  extract_lets closed isStatement
  refine (h₁.gets isStatement).bind fun p₂ h₂ => ?_
  extract_lets p₃ loop
  have h₃ : Gets s ts p p₃ := h₂.leave rfl rfl
  split
  · exact .ok h₃
  · exact .ok (h₃.of_retains { Retains.refl p₃ with } ⟨rfl, rfl, rfl⟩)

/-- The keyword `import` starts a statement, a call or a meta property. -/
theorem Settled.stepImport (h : p.Settled s ts left) (hkind : p.token.kind = .kwImport) (stmtStart : Bool) :
    Ensures (p.stepImport stmtStart) (Gets s ts p) := by
  unfold Scanner.stepImport
  extract_lets keyword
  refine (h.advance (by rw [hkind]; rfl)).bind fun p₁ h₁ => ?_
  obtain ⟨hgoes, h₁, hresumes⟩ := h₁
  split
  case h_1 hparen =>
    extract_lets _ o
    have ho : ({ p₁ with outline := o } : Scanner).Settled s (ts ++ [p.token]) {} :=
      h₁.of_retains { Retains.refl p₁ with } ⟨rfl, rfl, rfl⟩
    have hopens : ({ p₁ with outline := o } : Scanner).token.kind = .openParen := hparen
    refine ((ho.poised_open (f := { kind := .dynamicImport }) (b := .paren) (by rw [hopens]; rfl) (by rw [hopens]; rfl)
      rfl nofun rfl).gets true).bind fun p₂ h₂ => ?_
    extract_lets rest
    exact .forbid fun _ => .ok (.of_goes hgoes (h₂.of_lexer (p := p₁) rfl))
  case h_2 hdot =>
    refine (h₁.advance (by rw [hdot]; rfl)).bind fun p₂ h₂ => ?_
    obtain ⟨hgoes', h₂, -⟩ := h₂
    extract_lets _ o p₃ rest
    refine .require fun hmeta => ?_
    have hmoved := h₂.next_of_retains (q := p₃) (isPlain_of_isWord hmeta) { Retains.refl p₂ with } rfl false
    refine hmoved.mono fun p' hp' => ?_
    exact .of_goes hgoes (.of_goes hgoes' hp')
  case h_3 =>
    extract_lets rest
    refine .require fun _ => (readImport_reads keyword.start).mono fun p' hp' => ?_
    exact .of_goes hgoes (h₁.reads hresumes hp')

/-! ### A turn -/

/-- The head or the middle of a template opens a frame for the substitution behind it. -/
theorem Settled.push_template (h : p.Settled s ts left)
    (hkind : p.token.kind = .templateHead ∨ p.token.kind = .templateMiddle) :
    Ensures ((p.push { kind := .template }).next true) (Gets s ts p) := by
  refine (h.poised_push (f := { kind := .template }) ?_ (fun st => ?_) (.inl rfl) nofun rfl).gets true
  · obtain hkind | hkind := hkind <;> exact Lexer.isLast_of_kind hkind rfl
  · rw [hung]
    obtain hkind | hkind := hkind <;> rw [hkind] <;> rfl

/-- Whatever the kind of the current token is, handling it keeps brackets and assignments in order. -/
theorem Settled.stepKind (h : p.Settled s ts left) (hlast : p.token.isLast = false)
    (htemplate : p.token.kind = .closeBrace → p.top.kind ≠ .template) : Ensures (p.stepKind left) (Gets s ts p) := by
  unfold Scanner.stepKind
  dsimp only
  cases hkind : p.token.kind
  case endOfFile | invalid => simp [Token.isLast, hkind] at hlast
  -- what opens and closes brackets
  case templateHead => exact h.push_template (.inl hkind)
  case templateMiddle => exact h.push_template (.inr hkind)
  case templateTail => exact (h.poised_tail hkind).gets false
  case openParen =>
    refine (h.poised_open (b := .paren) (by rw [hkind]; rfl) (by rw [hkind]; rfl) ?_ ?_ rfl).gets true
    · dsimp only
      split <;> rfl
    · exact fun _ => Nat.zero_le _
  case closeParen => exact h.stepCloseParen hkind
  case openBracket => exact h.stepOpenBracket hkind
  case closeBracket => exact h.stepCloseBracket hkind
  case openBrace => exact h.stepOpenBrace hkind _
  case closeBrace => exact h.stepCloseBrace htemplate
  -- what reads several tokens
  case kwImport => exact h.stepImport hkind _
  case kwExport =>
    exact .require fun _ => (readExport_reads hkind).mono fun p' hp' => h.reads (by rw [hkind]; rfl) hp'
  case comma => exact h.stepComma hkind
  case colon => exact h.stepColon hkind
  all_goals
    have hplain : p.token.kind.isPlain = true := by
      rw [hkind]
      rfl
  case identifier | escapedKeyword =>
    dsimp only
    split
    · exact (h.of_retains (q := p.leave _) (retains_leave rfl rfl) ⟨rfl, rfl, rfl⟩).stepIdentifier hplain
    · exact h.stepIdentifier hplain
  case kwVar | kwConst =>
    refine h.next_of_retains hplain (retains_ite retains_startDeclaration (.refl p)) ?_ true
    split <;> rfl
  case kwFunction | kwClass =>
    refine h.next_of_retains hplain ?_ ?_ true
    · exact { Retains.refl p with }
    · rfl
  case question =>
    refine h.next_of_retains hplain ?_ ?_ true
    · exact retains_withTop rfl rfl rfl fun _ => id
    · rfl
  case kwReturn => exact .forbid fun _ => h.next hplain true
  case kwIf | kwWhile | kwWith | kwSwitch | kwFor => exact h.next_of_retains hplain (retains_leave rfl rfl) rfl true
  case kwCatch =>
    exact (h.next_of_retains hplain (retains_leave rfl rfl) rfl true).bind fun p₁ h₁ => .ok (h₁.leave rfl rfl)
  case kwDo | kwElse | kwTry | kwFinally =>
    exact (h.next hplain true).bind fun p₁ h₁ => .ok (h₁.leave rfl rfl)
  case kwIn =>
    refine h.next_of_retains hplain (retains_ite ?_ (.refl p)) ?_ true
    · exact retains_withTop rfl rfl rfl (by simp)
    · split <;> rfl
  case semicolon =>
    refine ((h.endStatement (by rw [hkind]; rfl)).next hplain true).bind fun p₁ h₁ => .ok ?_
    exact Gets.leave (p := p) h₁ rfl rfl
  case equalsGreaterThan =>
    have hdiscard : ∀ q : Scanner, q.Settled s ts left → Alike p q → Ensures (q.next true) (Gets s ts p) :=
      fun q hq ha => (hq.next (ha.token ▸ hplain) true).mono fun p' hp' => hp'.of_lexer ha.lexer
    dsimp only
    split
    · exact hdiscard _ (h.discardWrites _) (discardWrites_alike _)
    · exact h.next hplain true
  case plusPlus | minusMinus => exact h.stepUpdate hplain
  case dotDotDot =>
    refine h.next_of_retains hplain (retains_ite ?_ (.refl p)) ?_ true
    · exact retains_withTop rfl rfl rfl fun _ => id
    · split <;> rfl
  case privateName | string | number | bigInteger | template | regExp | kwThis | kwSuper | kwNull | kwTrue | kwFalse
    | dot | questionDot => exact h.next hplain false
  -- operators
  all_goals first | exact h.next hplain true | exact h.stepAssign hplain

/-- So does handling it behind a dot, or where a key may stand. -/
theorem Settled.handleToken (h : p.Settled s ts left) (hlast : p.token.isLast = false)
    (htemplate : p.token.kind = .closeBrace → p.top.kind ≠ .template) : Ensures (p.handleToken left) (Gets s ts p) := by
  unfold Scanner.handleToken
  split
  · rename_i hname
    simp only [Bool.and_eq_true, Bool.or_eq_true, decide_eq_true_eq] at hname
    refine h.next ?_ false
    obtain hname | hname := hname.2
    · exact TokenKind.isPlain_of_isName hname
    · rw [hname]
      rfl
  · split
    · rename_i x hx
      split at hx
      · exact h.stepKey hx
      · cases hx
    · exact h.stepKind hlast htemplate

/-- Settling what is left closes no frame and opens none. -/
theorem settled_kind : p.settled.1.top.kind = p.top.kind := by
  have hupdate : ({ p with left := {} }.settleUpdate).top.kind = p.top.kind := by
    unfold Scanner.settleUpdate
    split
    · rfl
    · dsimp only
      split <;> rfl
  have hretains := ((retains_settleShorthand (p := { p with left := {} }.settleUpdate)).trans
    (retains_collectTargets p.left)).trans (retains_noteLoop p.left.ref)
  have hline : ∀ (q : Scanner) (l : Leftover), (q.settleLine l).1.top.kind = q.top.kind := by
    intro q l
    unfold Scanner.settleLine
    split <;> rfl
  exact (hline _ _).trans ((hretains.trans (retains_settleLet _)).kind.trans hupdate)

/-- A step keeps the brackets and assignments in order. -/
theorem Tracks.step (h : p.Tracks s ts) (hlast : p.token.isLast = false)
    (htemplate : p.token.kind = .closeBrace → p.top.kind ≠ .template) : Ensures p.step (Gets s ts p) := by
  rw [step_eq_handleToken]
  have halike := p.settled_alike
  refine (h.settled.handleToken (halike.token ▸ hlast) ?_).mono fun p' hp' => hp'.of_lexer halike.lexer
  rw [halike.token, settled_kind]
  exact htemplate

/-- The current token is read again. -/
theorem Tracks.reread (h : p.Tracks s ts) {lx : Lexer} {o : Outline} {f : Frame} {fs : List Frame} {n : Nat}
    {cs : List PendingClose} (hmet : Lexer.Met s lx) (hstop : lx.token.prevStop = p.token.prevStop)
    (hq : q = { p with lexer := lx, outline := o, top := f, below := fs, functionDepth := n, closes := cs })
    (hholds : q.Holds ts q.hung) : q.Tracks s ts := by
  subst hq
  exact
    { met := hmet
      last := fun t ht => (h.last t ht).trans hstop.symm
      holds := hholds
      closed := h.closed
      ref := h.ref
      update := h.update
      pending := h.pending }

/-- A brace that is not read again closes no substitution. -/
theorem Tracks.retokenize (h : p.Tracks s ts) : Ensures p.retokenize fun q =>
    q.Tracks s ts ∧ (q.token.kind = .closeBrace → q.top.kind ≠ .template) := by
  intro q hq
  obtain ⟨rfl, htemplate⟩ | ⟨lx, hkind, hlx, rfl⟩ | ⟨lx, hkind, htop, hlx, rfl⟩ := retokenize_ok hq
  · exact ⟨h, htemplate⟩
  · have hregExp : ({ p with lexer := lx } : Scanner).token.kind = .regExp := Lexer.kind_of_asRegExp hlx
    have hholds : p.Holds ts [] := hung_of_resumes (by obtain hk | hk := hkind <;> rw [hk] <;> rfl) ▸ h.holds
    have hstop := (asRegExp_rereads (by obtain hk | hk := hkind <;> simp [hk]) lx hlx).prevStop
    refine ⟨h.reread (h.met.regExp hkind hlx) hstop rfl ?_, by simp [hregExp]⟩
    exact .of_resumes { hholds with } (by rw [hregExp]; rfl)
  · -- the substitution is left, and its bracket hangs over until the token is handled
    have hresumes := Lexer.resumes_of_asTemplate hlx
    have hbelow := h.holds.below_ne_nil (by rw [htop]; nofun)
    obtain ⟨f, fs, hfs⟩ := List.exists_cons_of_ne_nil hbelow
    have hholds : p.Holds ts [] := hung_of_resumes (by rw [hkind]; rfl) ▸ h.holds
    have hpop := (hholds.closeWrites h.last).pop hbelow fun c hc => hholds.depth_lt hc
    have hstop := (asTemplate_rereads (by rw [hkind]; simp) lx hlx).prevStop
    rw [pop_eq (p := p.closeWrites p.depth) hfs] at hpop ⊢
    refine ⟨h.reread (h.met.template hlx) hstop rfl ?_, fun hclose => ?_⟩
    · rw [show (p.closeWrites p.depth).top.kind = .template from htop] at hpop
      exact .of_hanging { hpop with } hresumes
    · rw [show lx.token.kind = .closeBrace from hclose] at hresumes
      cases hresumes

/-! ### Where scanning leads -/

/-- Settling an increment keeps the indices in order, whatever comes next. -/
theorem Consistent.settleUpdate (h : p.Consistent) : ({ p with left := {} }.settleUpdate).Consistent := by
  unfold Scanner.settleUpdate
  split
  · exact { h with }
  · dsimp only
    split
    · exact { h with }
    · exact Consistent.addWrite (p := { p with left := {}, pendingUpdate := none }) { h with } ..

/-- So does settling all that the token before left open. -/
theorem Consistent.settled (h : p.Consistent) : p.settled.1.Consistent := by
  have h₁ := (h.settleUpdate.of_retains retains_settleShorthand).of_retains (retains_collectTargets p.left)
  have h₂ := (h₁.of_retains (retains_noteLoop p.left.ref)).of_retains (retains_settleLet p.left)
  have hline : ∀ (q : Scanner) (l : Leftover), q.Consistent → (q.settleLine l).1.Consistent := by
    intro q l hq
    unfold Scanner.settleLine
    split
    · exact (hq.closeWhile _).of_retains (retains_withTop rfl rfl rfl nofun)
    · exact hq
  exact hline _ _ h₂

/-- The scanner has its brackets and assignments in order, or it is held up by a character that starts no token. -/
def Steady (s : Source) (p : Scanner) : Prop := (∃ ts, p.Tracks s ts) ∨ p.token.kind = .invalid ∧ p.Consistent

/-- In either case the indices fit each other. -/
theorem Steady.consistent (h : p.Steady s) : p.Consistent := by
  obtain ⟨ts, h⟩ | ⟨-, h⟩ := h
  · exact h.holds.toConsistent
  · exact h

/-- Reading a token again keeps the scanner steady, and closes the frame of a template if its brace does. -/
theorem Steady.retokenize (h : p.Steady s) (hread : p.retokenize = .ok q) :
    q.Steady s ∧ (q.token.kind = .closeBrace → q.top.kind ≠ .template) := by
  obtain ⟨ts, h⟩ | ⟨hkind, h⟩ := h
  · obtain ⟨h, htemplate⟩ := h.retokenize q hread
    exact ⟨.inl ⟨ts, h⟩, htemplate⟩
  · cases (retokenize_invalid hkind).symm.trans hread
    exact ⟨.inr ⟨hkind, h⟩, by simp [hkind]⟩

/-- A step from a steady scanner leads to a steady one. -/
theorem Steady.step (h : q.Steady s) (htemplate : q.token.kind = .closeBrace → q.top.kind ≠ .template)
    (hend : q.token.kind ≠ .endOfFile) (hstep : q.step = .ok p) : p.Steady s := by
  by_cases hkind : q.token.kind = .invalid
  · obtain ⟨lx, hlx, heq⟩ := step_invalid hkind
    cases heq.symm.trans hstep
    exact .inr ⟨hlx, { h.consistent.settled with }⟩
  · obtain ⟨ts, h⟩ | ⟨hinvalid, -⟩ := h
    · obtain ⟨us, -, h⟩ := h.step (by simp [Token.isLast, hend, hkind]) htemplate p hstep
      exact .inl ⟨_, h⟩
    · exact absurd hinvalid hkind

end Scanner

namespace Outline

open Scanner (Steady Tracks Holds settleUpdate_alike)

variable {s : Source} {p q : Scanner}

/-- A source is opened with nothing but the frame of the module. -/
theorem opening_tracks : Ensures (opening s) fun p => ∃ lx ts, Lexer.start s .script = .ok lx ∧ lx.Goes ts p.lexer ∧
    p.Tracks s ts := by
  -- nothing is open and nothing was written when the scanner starts
  have hstart : ∀ {lx : Lexer} {o : Outline} {ts : List Token}, Lexer.Met s lx → lx.token.kind.resumes = false →
      (∀ t ∈ ts.getLast?, t.stop = lx.token.prevStop) → Balanced ts → o.writes = [] →
      ({ lexer := lx, outline := o } : Scanner).Tracks s ts := by
    intro lx o ts hmet hresumes hlast hts hwrites
    exact
      { met := hmet
        last := hlast
        holds := Holds.of_resumes
          { closes := .nil
            bounds := by simp
            bottom := by simp
            patterns := ⟨nofun, trivial⟩
            exports := by simp
            stack := hts
            frames := by simp
            pending := by simp
            ended := by simp [hwrites] } hresumes
        closed := by simp
        ref := by simp
        update := by simp
        pending := by simp }
  intro p hp
  cases opening_ok p hp with
  | plain start =>
      exact ⟨_, [], start, .refl _, hstart (.start start) (Lexer.resumes_of_start start) (by simp) .nil rfl⟩
  | @hashbang lx lx' start kind moved =>
      have hmet : Lexer.Met s lx := .start start
      have hplain : lx.token.kind.isPlain = true := by
        rw [kind]
        rfl
      refine ⟨lx, [lx.token], start, .one (Lexer.isLast_of_isPlain hplain) moved, ?_⟩
      exact hstart (hmet.next moved) (Lexer.resumes_of_next hmet moved)
        (by simpa using (Lexer.prevStop_of_next moved).symm) (.plain hplain) rfl

/-- Wherever a token is handled, the scanner is steady. -/
theorem Handles.steady (h : Handles s p) : p.Steady s ∧ (p.token.kind = .closeBrace → p.top.kind ≠ .template) := by
  induction h with
  | first hopen hread _ =>
      obtain ⟨_, ts, -, -, htracks⟩ := opening_tracks _ hopen
      exact Steady.retokenize (.inl ⟨ts, htracks⟩) hread
  | @next p _ _ hp hstep hread _ ih =>
      have hend : p.token.kind ≠ .endOfFile := by cases hp <;> assumption
      exact (ih.1.step ih.2 hend hstep).retokenize hread

/-- Wherever a turn begins, the scanner is steady. -/
theorem AtTurn.steady (h : AtTurn s p) : p.Steady s := by
  obtain hopen | ⟨q, hq, hstep⟩ := h
  · obtain ⟨_, ts, -, -, htracks⟩ := opening_tracks _ hopen
    exact .inl ⟨ts, htracks⟩
  · have hend : q.token.kind ≠ .endOfFile := by cases hq <;> assumption
    exact hq.steady.1.step hq.steady.2 hend hstep

/-- The states that scanning a source comes to: before a turn, when the current token has been read again, and when
what is noted of an increment or decrement, and then all, is settled for it. -/
inductive Reached (s : Source) : Scanner → Prop where
  | turn {p : Scanner} (h : AtTurn s p) : Reached s p
  | reread {p q : Scanner} (h : AtTurn s p) (hread : p.retokenize = .ok q) : Reached s q
  | settling {p : Scanner} (h : Handles s p) : Reached s { p with left := {} }.settleUpdate
  | settled {p : Scanner} (h : Handles s p) : Reached s p.settled.1

/-- Wherever scanning has come to, also within a turn, the indices fit each other. -/
theorem Reached.consistent (h : Reached s p) : p.Consistent := by
  cases h with
  | turn h => exact h.steady.consistent
  | reread h hread => exact (h.steady.retokenize hread).1.consistent
  | settling h => exact h.steady.1.consistent.settleUpdate
  | settled h => exact h.steady.1.consistent.settled

/-- Wherever scanning has come to, its lexer reads the source. -/
theorem Reached.met (h : Reached s p) : Lexer.Met s p.lexer := by
  cases h with
  | turn h => exact h.met
  | reread h hread => exact (h.rereads hread).1
  | @settling p h =>
      obtain ⟨_, hlaid⟩ := h.laidOut
      rw [(settleUpdate_alike (p := { p with left := {} })).lexer]
      exact hlaid.met
  | @settled p h =>
      obtain ⟨_, hlaid⟩ := h.laidOut
      rw [p.settled_alike.lexer]
      exact hlaid.met

end Outline

/-! ### Indices -/

namespace Outline

variable {s : Source} {p : Scanner}

/-- The scanner where it has got to after some turns, if none of them fails or comes to the end. -/
def after : Nat → Scanner → Option Scanner
  | 0, p => some p
  | n + 1, p =>
    match p.retokenize with
    | .ok q => if q.token.kind = .endOfFile then none else q.step.toOption.bind (after n)
    | .error _ => none

/-- Turn after turn, the scanner comes to states at a turn. -/
theorem AtTurn.after {n : Nat} {p' : Scanner} (hp : AtTurn s p) (h : after n p = some p') : AtTurn s p' := by
  induction n generalizing p with
  | zero =>
      cases h
      exact hp
  | succ n ih =>
      rw [Outline.after] at h
      split at h
      · rename_i q hread
        split at h
        · cases h
        · rename_i hend
          obtain ⟨r, hr, hrest⟩ := Option.bind_eq_some_iff.1 h
          cases hstep : q.step with
          | error f => rw [hstep] at hr; cases hr
          | ok r' =>
              rw [hstep] at hr
              cases hr
              exact ih (.inr ⟨q, hp.handles hread hend, hstep⟩) hrest
      · cases h

end Outline

end ModuleSystem
