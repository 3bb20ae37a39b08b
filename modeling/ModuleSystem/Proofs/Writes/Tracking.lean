import ModuleSystem.Proofs.Writes.Track

/-!
# The scanner keeps its track

Among expressions, blocks and function declarations (`Tame`), the scanner does to its track what
`Track.step` says.

* `step_eq`: what is settled before a token is handled.
* `does_number`, `does_openParen`, …: how a token of a kind is handled.
* `track_step`: one token; `track_run`: all tokens.
* `read_of_run`: a source whose tokens the track passes can be read, and the writes of its outline are
  those of the track.
-/

namespace ModuleSystem.Scanner

variable {p q : Scanner} {lx : Lexer} {v : Track}

/-- The scanner with nothing left behind by the token before. -/
def bare (p : Scanner) : Scanner := { p with left := {} }

/-- Handles the current token after everything is settled. -/
def handle (p : Scanner) : Except Fault Scanner :=
  if (p.prev = .dot || p.prev = .questionDot)
      && (p.token.kind.isName || p.token.kind = .privateName) then p.bare.next false
  else p.bare.stepKind p.left

@[simp] theorem track_depth (p : Scanner) : p.track.depth = p.depth := by
  simp [track, Track.depth, depth]

/-- The scanner ends assignments as its track does. -/
theorem closeWhile_eq (p : Scanner) (f : PendingClose → Bool) :
    p.closeWhile f =
      { p with
        closes := (p.track.closeWhile p.token.prevStop f).closes
        outline := { p.outline with writes := (p.track.closeWhile p.token.prevStop f).writes } } := rfl

theorem track_closeWhile (p : Scanner) (f : PendingClose → Bool) :
    (p.closeWhile f).track = p.track.closeWhile p.token.prevStop f := rfl

theorem track_closeWrites (p : Scanner) : (p.closeWrites p.depth).track = p.track.closeAll p.token.prevStop := by
  rw [closeWrites, track_closeWhile, Track.closeAll, track_depth]

/-- A scanner stays tame when assignments end. -/
theorem Tame.closeWhile (h : p.Tame) (f : PendingClose → Bool) : (p.closeWhile f).Tame := by
  rw [closeWhile_eq]
  exact { h with }

/-- The scanner ends a statement as its track does. -/
theorem track_endStatement (p : Scanner) : p.endStatement.track = p.track.endStatement p.token.prevStop := by
  have := track_closeWrites p
  unfold endStatement Track.endStatement
  rw [← this]
  rfl

theorem Tame.withTop (h : p.Tame) {f : Frame} (hf : f.Tame) : { p with top := f }.Tame := { h with top := hf }

/-- A scanner stays tame with another tame frame. -/
theorem Tame.push (h : p.Tame) {f : Frame} (hf : f.Tame) : (p.push f).Tame :=
  { h with
    top := { hf with }
    below := List.forall_mem_cons.2 ⟨h.top, h.below⟩ }

theorem Tame.endStatement (h : p.Tame) : p.endStatement.Tame := by
  unfold Scanner.endStatement
  refine Tame.withTop (h.closeWhile _) ?_
  exact { h.top with decl := rfl }

/-- The scanner settles an increment as its track does. -/
theorem settleUpdate_eq (p : Scanner) : p.settleUpdate =
    { p with
      outline := { p.outline with writes := (p.track.settleUpdate p.token).writes }
      pendingUpdate := none } := by
  obtain ⟨lx, o, top, below, functionDepth, closes, prev, exprAllowed, left, last, pending, _, _, _⟩ := p
  cases pending with
  | none => simp [settleUpdate, Track.settleUpdate, Track.writesAt, track]
  | some u =>
      cases hmember : continuesMember lx.token.kind <;>
        simp [settleUpdate, Track.settleUpdate, Track.writesAt, track, token, addWrite, hmember]
      rfl

/-- Without a key that is pending there is nothing to settle. -/
theorem settleShorthand_eq (h : p.top.shorthand = none) : p.settleShorthand = p := by
  unfold settleShorthand
  rw [h]

theorem noteLoop_eq (h : p.top.isForHead = false) (ref : Option Binding) : p.noteLoop ref = p := by
  simp [noteLoop, h]

theorem settleLet_eq (h : p.pendingLet = false) (left : Leftover) : p.settleLet left = (p, left) := by
  simp [settleLet, h]

/-- What the variables and heads of loops need is the same as without them. -/
theorem collectTargets_eq (p : Scanner) (left : Leftover) :
    ∃ targets, p.collectTargets left = { p with top := { p.top with targets } } := by
  unfold collectTargets
  split
  · exact ⟨_, rfl⟩
  · exact ⟨p.top.targets, rfl⟩

/-- The end of a statement changes the assignments and the innermost frame. -/
theorem endStatement_eq (p : Scanner) : p.endStatement =
    { p with
      closes := (p.track.closeAll p.token.prevStop).closes
      outline := { p.outline with writes := (p.track.closeAll p.token.prevStop).writes }
      top := { p.top with decl := {}, ternaries := 0 } } := by
  rw [Track.closeAll, track_depth]
  rfl

/-- The scanner with what the token before left behind. -/
def holding (p : Scanner) (left : Leftover) : Scanner := { p with left }

/-- Settling an increment keeps a tame scanner with its track. -/
theorem settleUpdate_settles (h : p.Tame) : (p.bare.settleUpdate.holding p.left).Tame ∧
    (p.bare.settleUpdate.holding p.left).track = p.track.settleUpdate p.token := by
  rw [settleUpdate_eq]
  exact ⟨{ h with }, rfl⟩

/-- Collecting variables does not show in the track. -/
theorem collectTargets_settles {left : Leftover} (h : (p.holding left).Tame) (l : Leftover) :
    ((p.collectTargets l).holding left).Tame ∧
      ((p.collectTargets l).holding left).track = (p.holding left).track ∧
      (p.collectTargets l).left = p.left ∧ (p.collectTargets l).lexer = p.lexer := by
  obtain ⟨targets, htargets⟩ := collectTargets_eq p l
  rw [htargets]
  exact ⟨{ h with top := { h.top with } }, rfl, rfl, rfl⟩

/-- A tame scanner stands in no class. -/
theorem Tame.kind_ne (h : p.Tame) : p.top.kind ≠ .classBody := by
  intro heq
  have := h.top.kind
  rw [heq] at this
  cases this

/-- Settling a line terminator keeps a tame scanner with its track. -/
theorem settleLine_settles {left : Leftover} (h : (p.holding left).Tame) :
    ((p.settleLine left).1.holding (p.settleLine left).2).Tame ∧
      ((p.settleLine left).1.holding (p.settleLine left).2).track = (p.holding left).track.settleLine p.token ∧
      (p.settleLine left).1.left = p.left ∧ (p.settleLine left).1.lexer = p.lexer := by
  have hkind : p.top.kind ≠ .classBody := h.kind_ne
  have hline : (p.holding left).track.startsLine p.token =
      (p.token.newlineBefore && !p.exprAllowed && startsStatement p.token.kind && p.top.kind.holdsStatements) := rfl
  unfold settleLine Track.settleLine
  simp only [hkind, decide_false, Bool.or_false, reduceIte]
  rw [hline]
  split
  · refine ⟨{ h.endStatement with ref := fun hne => absurd rfl hne }, ?_, rfl, rfl⟩
    rw [endStatement_eq]
    rfl
  · exact ⟨h, rfl, rfl, rfl⟩

/-- A step of a tame scanner settles what is left, and handles the current token. -/
theorem step_eq (h : p.Tame) : ∃ q : Scanner, p.step = q.handle ∧ q.Tame ∧
    q.track = p.track.settle p.token ∧ q.lexer = p.lexer := by
  have hframe : p.bare.settleUpdate.top = p.top ∧ p.bare.settleUpdate.lexer = p.lexer ∧
      p.bare.settleUpdate.left = {} ∧ p.bare.settleUpdate.pendingLet = false := by
    rw [settleUpdate_eq]
    exact ⟨rfl, rfl, rfl, h.pendingLet⟩
  obtain ⟨htop, hlexer, hleft, hlet⟩ := hframe
  obtain ⟨hupdate, htrack⟩ := settleUpdate_settles h
  obtain ⟨htargets, htrack', hleft', hlexer'⟩ := collectTargets_settles hupdate p.left
  obtain ⟨hline, htrack'', hleft'', hlexer''⟩ := settleLine_settles htargets
  have hloop : (p.bare.settleUpdate.collectTargets p.left).top.isForHead = false := htargets.top.isForHead
  have hlet' : (p.bare.settleUpdate.collectTargets p.left).pendingLet = false := htargets.pendingLet
  refine ⟨_, ?_, hline, ?_, hlexer''.trans (hlexer'.trans hlexer)⟩
  · unfold step
    dsimp only
    rw [show ({ p with left := {} } : Scanner) = p.bare from rfl,
      settleShorthand_eq (by rw [htop]; exact h.top.shorthand), noteLoop_eq hloop, settleLet_eq hlet']
    have hempty := hleft''.trans (hleft'.trans hleft)
    have hkey := hline.keyPosition
    dsimp only
    generalize (p.bare.settleUpdate.collectTargets p.left).settleLine p.left = r at hempty hkey
    obtain ⟨q, left⟩ := r
    have hkey' : left.keyPosition = false := hkey
    have hbare : (q.holding left).bare = q := by
      rw [bare, holding, ← hempty]
    rw [hkey', handle, hbare]
    rfl
  · have htoken : (p.bare.settleUpdate.collectTargets p.left).token = p.token := congrArg Lexer.token (hlexer'.trans hlexer)
    rw [htrack'', htrack', htrack, htoken, Track.settle]

theorem Tame.kind_bne (h : p.Tame) : (p.top.kind == .object) = false := by
  have hkind := h.top.kind
  cases hp : p.top.kind <;> simp_all [FrameKind.isPlain]

/-- A tame scanner stands in no pattern. -/
theorem Tame.not_isPattern (h : p.Tame) : p.top.kind.isPattern = false := by
  have hkind := h.top.kind
  cases hp : p.top.kind <;> simp_all [FrameKind.isPlain, FrameKind.isPattern]

/-- The scanner after it has moved on to the next token. -/
def moved (p : Scanner) (exprAllowed : Bool) (lx : Lexer) : Scanner :=
  { p with prev := p.token.kind, exprAllowed, lexer := lx }

/-- Moving on leaves the token's kind behind. -/
theorem next_eq (p : Scanner) (h : p.lexer.next = .ok lx) (exprAllowed : Bool) : p.next exprAllowed = .ok (p.moved exprAllowed lx) := by
  simp only [next, advance, h]
  rfl

theorem Tame.bare (h : p.Tame) : p.bare.Tame :=
  { h with keyPosition := rfl, nextParen := rfl, ref := fun hne => absurd rfl hne }

/-- A scanner stays tame when it moves on. -/
theorem Tame.moved (h : p.Tame) (hleft : p.left = {}) (exprAllowed : Bool) (lx : Lexer) :
    (p.moved exprAllowed lx).Tame :=
  { h with ref := fun hne => absurd (congrArg Leftover.ref hleft) hne }

/-- The scanner moves on as its track does. -/
theorem track_moved (hleft : p.left = {}) (exprAllowed : Bool) (lx : Lexer) :
    (p.moved exprAllowed lx).track = p.track.next p.token exprAllowed := by
  simp only [track, Scanner.moved, Track.next, hleft]

/-- The scanner forgets writes as its track does. -/
theorem Tame.discardWrites (h : p.Tame) (count : Nat) : (p.discardWrites count).Tame ∧
    (p.discardWrites count).track = p.track.discard count ∧ (p.discardWrites count).left = p.left ∧
    (p.discardWrites count).lexer = p.lexer := by
  have hlength : p.track.writes.length = p.outline.writes.length := rfl
  unfold Scanner.discardWrites Track.discard
  rw [hlength]
  split
  · exact ⟨h, rfl, rfl, rfl⟩
  · exact ⟨{ h with }, rfl, rfl, rfl⟩

/-- The innermost bracket is closed as its track says. -/
theorem Tame.close_spec (h : p.Tame) (hkind : p.top.kind.closer = p.token.kind) {w : Track}
    (hw : p.track.close p.token = some w) : ∃ q : Scanner, p.bare.close = .ok q ∧ q.Tame ∧ q.left = {} ∧
      q.lexer = p.lexer ∧ q.lastClosed = p.top ∧
      ∀ exprAllowed, q.track.next p.token exprAllowed = w.next p.token exprAllowed := by
  unfold Track.close at hw
  have hbelow : p.track.below = p.below.map Frame.level := rfl
  rw [hbelow] at hw
  cases hb : p.below with
  | nil =>
      rw [hb] at hw
      cases hw
  | cons f below =>
      rw [hb] at hw
      have htame := List.forall_mem_cons.1 (hb ▸ h.below)
      have hclosed := h.bare.closeWhile fun c => p.bare.depth ≤ c.depth
      let q : Scanner := { p.bare.closeWrites p.bare.depth with
        top := f
        below
        functionDepth := if p.top.kind = .functionBody then p.functionDepth - 1 else p.functionDepth
        lastClosed := p.top }
      have hpop : { (p.bare.closeWrites p.bare.depth).pop with lastClosed := (p.bare.closeWrites p.bare.depth).top } = q := by
        have hbelow' : (p.bare.closeWrites p.bare.depth).below = f :: below := hb
        unfold pop
        rw [hbelow']
        rfl
      refine ⟨q, ?_, { hclosed with top := htame.1, below := htame.2 }, rfl, rfl, rfl, fun exprAllowed => ?_⟩
      · unfold close
        rw [if_neg (by simp [show p.bare.top.kind.closer = p.bare.token.kind from hkind,
          show p.bare.below = f :: below from hb])]
        exact congrArg Except.ok hpop
      · rw [← Option.some.inj hw, Track.closeAll, track_depth]
        rfl

/-- Handling the current token leads to the given track. -/
def Does (p : Scanner) (lx : Lexer) (v : Track) : Prop :=
  ∃ q, p.handle = .ok q ∧ q.lexer = lx ∧ q.Tame ∧ q.track = v

/-- A token that the scanner only moves on from, after it has changed. -/
theorem does_next (hnext : p.lexer.next = .ok lx) {q : Scanner} {exprAllowed : Bool} (hhandle : p.handle = q.next exprAllowed)
    (hq : q.Tame) (hleft : q.left = {}) (hlexer : q.lexer = p.lexer) :
    p.Does lx (q.track.next p.token exprAllowed) := by
  have htoken : q.token = p.token := congrArg Lexer.token hlexer
  refine ⟨q.moved exprAllowed lx, ?_, rfl, hq.moved hleft exprAllowed lx, ?_⟩
  · rw [hhandle, next_eq q (hlexer ▸ hnext)]
  · rw [track_moved hleft, htoken]


section
variable (h : p.Tame) (hnext : p.lexer.next = .ok lx) (hhandle : p.handle = p.bare.stepKind p.left)
include h hnext hhandle

/-- The scanner handles a number, or a dot, as its track does. -/
theorem does_operand (hkind : p.token.kind = .number ∨ p.token.kind = .dot) :
    p.Does lx (p.track.next p.token false) := by
  refine does_next hnext (q := p.bare) (hhandle.trans ?_) h.bare rfl rfl
  have htoken : p.bare.token.kind = p.token.kind := rfl
  obtain hkind | hkind := hkind <;> simp only [stepKind, htoken, hkind]

/-- So it does an operator. -/
theorem does_plus (hkind : p.token.kind = .plus) : p.Does lx (p.track.next p.token true) := by
  refine does_next hnext (q := p.bare) (hhandle.trans ?_) h.bare rfl rfl
  have htoken : p.bare.token.kind = .plus := hkind
  simp only [stepKind, htoken]
  rfl

/-- A parenthesis opens a frame in both. -/
theorem does_openParen (hkind : p.token.kind = .openParen) :
    p.Does lx ((p.track.push .paren).next p.token true) := by
  refine does_next hnext (q := p.bare.push { kind := .paren }) (hhandle.trans ?_) ?_ rfl rfl
  · have htoken : p.bare.token.kind = .openParen := hkind
    have hparen := h.nextParen
    simp only [stepKind, htoken, hparen]
    rfl
  · exact h.bare.push ⟨rfl, rfl, rfl, rfl, rfl, rfl⟩

/-- A bracket opens a frame in both. -/
theorem does_openBracket (hkind : p.token.kind = .openBracket) :
    p.Does lx ((p.track.push .bracket).next p.token true) := by
  have hpattern : p.top.kind.isPattern = false := h.not_isPattern
  let f : Frame :=
    { kind := .bracket
      isArrayLiteral := p.exprAllowed && p.top.kind ≠ .classBody
      isLoopTarget := (p.exprAllowed && p.top.kind ≠ .classBody) && p.atForHeadStart }
  refine does_next hnext (q := p.bare.push f) (hhandle.trans ?_) ?_ rfl rfl
  · have htoken : p.bare.token.kind = .openBracket := hkind
    have htarget : p.bare.bindingTarget = (none, p.bare) := by
      unfold bindingTarget
      rw [if_neg (by simp [bare, h.top.decl]), if_neg (by simp [bare, hpattern])]
    simp only [stepKind, htoken, stepOpenBracket, htarget]
    rfl
  · exact h.bare.push ⟨rfl, rfl, rfl, rfl, rfl, rfl⟩

/-- A question mark opens a conditional in both. -/
theorem does_question (hkind : p.token.kind = .question) :
    p.Does lx (({ p.track with top := { p.track.top with ternaries := p.track.top.ternaries + 1 } }).next p.token true) := by
  refine does_next hnext (q := { p.bare with top := { p.top with ternaries := p.top.ternaries + 1 } })
    (hhandle.trans ?_) ?_ rfl rfl
  · have htoken : p.bare.token.kind = .question := hkind
    simp only [stepKind, htoken]
    rfl
  · exact h.bare.withTop { h.top with }

/-- A comma ends assignments in both. -/
theorem does_comma (hkind : p.token.kind = .comma) :
    p.Does lx ((p.track.closeAll p.token.prevStop).next p.token true) := by
  let q := p.bare.closeWrites p.bare.depth
  have htrack : q.track.next p.token true = (p.track.closeAll p.token.prevStop).next p.token true := by
    rw [track_closeWrites]
    rfl
  rw [← htrack]
  refine does_next hnext (hhandle.trans ?_) (h.bare.closeWhile _) rfl rfl
  have htoken : p.bare.token.kind = .comma := hkind
  have hdecl : q.top.decl.active = false := by
    rw [show q.top = p.top from rfl, h.top.decl]
  have htop : p.bare.top.kind = p.top.kind ∧ (q.moved true lx).top.kind = p.top.kind := ⟨rfl, rfl⟩
  have hplain := h.top.kind
  simp only [stepKind, htoken, stepComma, htop.1, show p.bare.closeWrites p.bare.depth = q from rfl, hdecl,
    Bool.false_eq_true, reduceIte, next_eq q hnext, ok_bind, htop.2]
  cases hk : p.top.kind <;> simp_all [FrameKind.isPlain] <;> rfl

/-- A semicolon ends a statement in both. -/
theorem does_semicolon (hkind : p.token.kind = .semicolon) :
    p.Does lx { (p.track.endStatement p.token.prevStop).next p.token true with
      stmtStart := p.track.top.kind.holdsStatements } := by
  have htoken : p.bare.token.kind = .semicolon := hkind
  have hclass : p.top.kind ≠ .classBody := h.kind_ne
  let q := (p.bare.endStatement.moved true lx).leave fun l => { l with stmtStart := p.top.kind.holdsStatements }
  have hstep : p.bare.stepKind p.left = .ok q := by
    have htop : (p.bare.endStatement.moved true lx).top.kind = p.top.kind := rfl
    simp only [stepKind, htoken, next_eq p.bare.endStatement hnext, ok_bind, htop, hclass, decide_false]
    rfl
  refine ⟨q, hhandle.trans hstep, rfl, ?_, ?_⟩
  · exact { h.bare.endStatement.moved rfl true lx with ref := fun hne => absurd rfl hne }
  · have htrack : q.track =
        { (p.bare.endStatement.moved true lx).track with stmtStart := p.top.kind.holdsStatements } := rfl
    rw [htrack, track_moved rfl, track_endStatement]
    rfl

/-- An increment is read in the same way by both. -/
theorem does_update (hkind : p.token.kind = .plusPlus ∨ p.token.kind = .minusMinus) :
    p.Does lx (p.track.readUpdate p.token) := by
  have htoken : p.bare.token.kind = p.token.kind ∧ p.bare.token.newlineBefore = p.token.newlineBefore := ⟨rfl, rfl⟩
  have hstep : p.bare.stepKind p.left = p.bare.stepUpdate p.left.ref := by
    obtain hkind | hkind := hkind <;> simp only [stepKind, htoken, hkind]
  unfold Track.readUpdate
  rw [show p.track.ref = p.left.ref from rfl]
  split
  · rename_i b hb hline
    refine does_next hnext (q := p.bare.addWrite [b] b.start p.token.stop) (hhandle.trans (hstep.trans ?_)) { h.bare with } rfl rfl
    simp only [stepUpdate, htoken, hb, hline]
    rfl
  · rename_i hother
    let q := (p.bare.moved true lx).leave fun l => { l with update := some p.token.start }
    refine ⟨q, hhandle.trans (hstep.trans ?_), rfl, { h.bare.moved rfl true lx with ref := fun hne => absurd rfl hne }, rfl⟩
    unfold stepUpdate
    split
    · rename_i b hb hline
      exact absurd hline (hother b hb)
    · simp only [next_eq p.bare hnext, ok_bind]
      rfl

/-- A function starts in the same way for both. -/
theorem does_function (hkind : p.token.kind = .kwFunction) (hstart : p.track.stmtStart = true) :
    p.Does lx (p.track.next p.token true) := by
  have htoken : p.bare.token.kind = .kwFunction := hkind
  have hleft : p.left.stmtStart = true := hstart
  refine does_next hnext (q := { p.bare with pendingFunction := some { depth := p.depth } }) (hhandle.trans ?_) ?_ rfl rfl
  · simp only [stepKind, htoken, hleft]
    rfl
  · exact { h.bare with pendingFunction := by simp }

/-- An assignment starts a write in both. -/
theorem does_assign (hkind : p.token.kind.isAssign = true) {b : Binding} (href : p.track.ref = some b) :
    p.Does lx ((p.track.startWrite b).next p.token true) := by
  have hleft : p.left.ref = some b := href
  have hprev : p.bare.prev = .identifier := (h.ref (by simp [hleft])).1
  have hstep : p.bare.stepKind p.left = p.bare.stepAssign (some b) := by
    have htoken : p.bare.token.kind = p.token.kind := rfl
    have hcases : ∀ k : TokenKind, k.isAssign = true → k = p.token.kind →
        p.bare.stepKind p.left = p.bare.stepAssign (some b) := by
      intro k hk heq
      cases k <;> first | (exact absurd hk (by decide)) | (simp only [stepKind, htoken, ← heq, hleft]; rfl)
    exact hcases _ hkind rfl
  have hassign : p.bare.stepAssign (some b) = (p.bare.startWrite [b] b.start).next true := by
    simp only [stepAssign, hprev, reduceCtorEq, decide_false, Bool.false_and, Bool.or_self, Bool.and_false,
      Bool.false_eq_true, reduceIte]
  have htrack : (p.bare.startWrite [b] b.start).track.next p.token true = (p.track.startWrite b).next p.token true := by
    have hdepth : p.bare.depth = p.track.depth := (track_depth p).symm
    unfold startWrite
    rw [hdepth]
    rfl
  rw [← htrack]
  exact does_next hnext (hhandle.trans (hstep.trans hassign)) { h.bare with } rfl rfl

/-- A colon goes on with the conditional in both. -/
theorem does_colon (hkind : p.token.kind = .colon) (hv : p.track.colon p.token = some v) : p.Does lx v := by
  have hstep : p.bare.stepKind p.left = p.bare.stepColon := by
    have htoken : p.bare.token.kind = .colon := hkind
    simp only [stepKind, htoken]
  unfold Track.colon at hv
  split at hv
  · cases hv
  rename_i hternaries
  have hne : p.top.ternaries ≠ 0 := hternaries
  have hobject : p.bare.top.kind ≠ .objectPattern := by
    intro heq
    have := h.bare.not_isPattern
    rw [heq] at this
    cases this
  let closed := p.bare.closeWhile fun c => c.depth = p.bare.depth && p.bare.top.ternaries ≤ c.ternaries
  let q : Scanner := { closed with top := { closed.top with ternaries := p.bare.top.ternaries - 1 } }
  have hq : p.bare.stepColon = .ok (q.moved true lx) := by
    have hcond : (p.bare.top.kind.holdsStatements && p.bare.top.ternaries = 0) = false := by simp [bare, hne]
    unfold stepColon
    dsimp only
    rw [show ({ (p.bare.closeWhile fun c => c.depth = p.bare.depth && p.bare.top.ternaries ≤ c.ternaries) with
      top := { (p.bare.closeWhile fun c => c.depth = p.bare.depth && p.bare.top.ternaries ≤ c.ternaries).top with
        ternaries := p.bare.top.ternaries - 1 } } : Scanner) = q from rfl, next_eq q hnext, ok_bind,
      if_neg hobject, hcond]
    rfl
  refine ⟨q.moved true lx, hhandle.trans (hstep.trans hq), rfl, ?_, ?_⟩
  · have hclosed : closed.Tame := h.bare.closeWhile _
    have htame : q.Tame := { hclosed with top := { h.top with } }
    exact htame.moved rfl true lx
  · rw [track_moved rfl, ← Option.some.inj hv, track_depth]
    rfl

/-- A variable is noted by both. -/
theorem does_identifier (hkind : p.token.kind = .identifier) (hname : p.token.name ∉ Track.reserved) :
    p.Does lx (p.track.readVariable p.token) := by
  have hne : ∀ w ∈ ["let", "yield", "await"], p.token.name ≠ Text.ofString w :=
    fun w hw heq => hname (List.mem_map.2 ⟨w, hw, heq.symm⟩)
  have hlet := hne "let" (by simp)
  have hyield := hne "yield" (by simp)
  have hawait := hne "await" (by simp)
  have htoken : p.bare.token = p.token := rfl
  have hparen : p.bare.leave ({ · with nextParen := p.left.nextParen }) = p.bare := by
    rw [h.nextParen]
    rfl
  have hstep : ∃ asyncStart, p.bare.stepKind p.left =
      ((p.bare.use p.token.name).leave ({ · with asyncStart })).stepVariable p.left := by
    have hword : p.bare.stepKind p.left = p.bare.stepIdentifier p.left := by
      simp only [stepKind, htoken, hkind, hparen, ite_self]
    rw [hword]
    have hnot : p.bare.stepIdentifier p.left =
        if p.token.name = Text.ofString "async" then
          ((p.bare.use p.token.name).leave ({ · with asyncStart := p.left.stmtStart })).stepVariable p.left
        else (p.bare.use p.token.name).stepVariable p.left := by
      simp only [stepIdentifier, htoken, hkind, hlet, hyield, hawait, decide_true, decide_false,
        Bool.and_false, Bool.false_and, Bool.false_eq_true, Bool.true_and, reduceIte, decide_eq_true_eq]
    rw [hnot]
    split
    · exact ⟨p.left.stmtStart, rfl⟩
    · exact ⟨false, rfl⟩
  obtain ⟨asyncStart, hstep⟩ := hstep
  let q := (p.bare.use p.token.name).leave ({ · with asyncStart })
  let b : Binding := ⟨p.token.name, p.token.start⟩
  have hvariable : q.stepVariable p.left = .ok { q.moved false lx with
      left := { q.left with ref := some b, refIsElement := q.atElementStart }
      pendingUpdate := p.left.update.map (·, b) } := by
    have hpattern : q.top.kind.isPattern = false := h.not_isPattern
    have hhead : q.atForHeadStart = false := by
      rw [atForHeadStart, show q.top = p.top from rfl, h.top.isForHead, Bool.and_false]
    unfold stepVariable
    rw [if_neg (by rw [show q.top = p.top from rfl, h.top.decl]; simp), if_neg (by simp [hpattern]), hhead]
    dsimp only
    rw [if_neg Bool.false_ne_true, next_eq q hnext, ok_bind]
    rfl
  refine ⟨_, hhandle.trans (hstep.trans hvariable), rfl, ?_, rfl⟩
  exact { h.bare with ref := fun _ => ⟨hkind, rfl⟩ }

/-- A parenthesis closes its frame in both. -/
theorem does_closeParen (hkind : p.token.kind = .closeParen) (htop : p.top.kind = .paren)
    (hv : (p.track.close p.token).map (·.next p.token false) = some v) : p.Does lx v := by
  obtain ⟨w, hw, rfl⟩ := Option.map_eq_some_iff.1 hv
  obtain ⟨q, hclose, hq, hleft, hlexer, hlast, htrack⟩ := h.close_spec (by rw [htop, hkind]; rfl) hw
  rw [← htrack]
  refine does_next hnext (hhandle.trans ?_) hq hleft hlexer
  have htoken : p.bare.token.kind = .closeParen := hkind
  have hnext' := next_eq q (hlexer ▸ hnext) false
  have hstatement : (p.top.kind == .parenStatement) = false := by rw [htop]; rfl
  have hloop : p.top.loopTargets.isEmpty = true := by rw [h.top.loopTargets]; rfl
  have hleave : (q.moved false lx).leave ({ · with stmtStart := false }) = q.moved false lx := by
    simp only [leave, moved, hleft]
  simp only [stepKind, htoken, stepCloseParen, hclose, ok_bind, hlast, hstatement, hnext', hloop, reduceIte, hleave]
  rfl

/-- A bracket closes its frame in both. -/
theorem does_closeBracket (hkind : p.token.kind = .closeBracket) (htop : p.top.kind = .bracket)
    (hv : (p.track.close p.token).map (·.next p.token false) = some v) : p.Does lx v := by
  obtain ⟨w, hw, rfl⟩ := Option.map_eq_some_iff.1 hv
  obtain ⟨q, hclose, hq, hleft, hlexer, hlast, htrack⟩ := h.close_spec (by rw [htop, hkind]; rfl) hw
  have htoken : p.bare.token.kind = .closeBracket := hkind
  let r := q.leave ({ · with closedTargets := q.lastClosed.targets })
  have hstep : p.bare.stepKind p.left = .ok (r.moved false lx) := by
    have hbracket : q.lastClosed.kind = .bracket := by rw [hlast, htop]
    simp only [stepKind, htoken, stepCloseBracket, hclose, ok_bind, hbracket, reduceIte]
    exact next_eq r (hlexer ▸ hnext) false
  refine ⟨r.moved false lx, hhandle.trans hstep, rfl, ?_, ?_⟩
  · exact { hq with keyPosition := hq.keyPosition, nextParen := hq.nextParen, ref := fun hne => absurd (congrArg Leftover.ref hleft) hne }
  · rw [← htrack, ← show q.token = p.token from congrArg Lexer.token hlexer, ← track_moved hleft false lx]
    rfl

/-- A brace closes its frame in both. -/
theorem does_closeBrace (hkind : p.token.kind = .closeBrace)
    (htop : p.top.kind = .block ∨ p.top.kind = .functionBody)
    (hv : ((p.track.close p.token).map fun v =>
      { v.next p.token true with stmtStart := v.top.kind.holdsStatements }) = some v) : p.Does lx v := by
  obtain ⟨w, hw, rfl⟩ := Option.map_eq_some_iff.1 hv
  obtain ⟨q, hclose, hq, hleft, hlexer, hlast, htrack⟩ :=
    h.close_spec (by obtain htop | htop := htop <;> rw [htop, hkind] <;> rfl) hw
  have htoken : p.bare.token.kind = .closeBrace := hkind
  have htopkind : q.top.kind = w.top.kind := congrArg (fun v => v.top.kind) (htrack true)
  let r := (q.moved true lx).leave ({ · with stmtStart := q.top.kind.holdsStatements })
  have hstep : p.bare.stepKind p.left = .ok r := by
    have hexpr : p.top.isExpr = false := h.top.isExpr
    have hclass : q.top.kind ≠ .classBody := hq.kind_ne
    simp only [stepKind, htoken, stepCloseBrace, hclose, ok_bind, hlast]
    obtain htop | htop := htop <;>
    · simp only [htop, hexpr, next_eq q (hlexer ▸ hnext), Bool.not_false, ok_bind, hclass, decide_false,
        Bool.true_and]
      exact congrArg Except.ok (by simp only [r, leave, moved, hleft])
  refine ⟨r, hhandle.trans hstep, rfl, ?_, ?_⟩
  · exact { hq.moved hleft true lx with ref := fun hne => absurd (congrArg Leftover.ref hleft) hne }
  · rw [← htrack, ← htopkind, ← show q.token = p.token from congrArg Lexer.token hlexer, ← track_moved hleft true lx]
    rfl

/-- An opening brace that opens a function body or a block: no class waits for its body here. -/
theorem does_brace (hkind : p.token.kind = .openBrace) {kind : FrameKind}
    (hopens : kind = .functionBody ∨ kind = .block)
    (hplain : braceFrame.plain p.left.stmtStart p.bare = ({ kind }, q)) (hq : q.Tame) (hleft : q.left = {})
    (hlexer : q.lexer = p.lexer) :
    p.Does lx { (q.track.push kind).next p.token true with stmtStart := true } := by
  have htoken : p.bare.token.kind = .openBrace := hkind
  have hframe : p.bare.braceFrame p.left.stmtStart = ({ kind }, q) := by
    unfold braceFrame
    rw [show p.bare.pendingClass = none from h.pendingClass]
    exact hplain
  have hpushed : (q.push { kind }).Tame :=
    hq.push (by obtain rfl | rfl := hopens <;> exact ⟨rfl, rfl, rfl, rfl, rfl, rfl⟩)
  let r := ((q.push { kind }).moved true lx).leave ({ · with stmtStart := true })
  have hopen : p.bare.stepKind p.left = .ok r := by
    simp only [stepKind, htoken, stepOpenBrace, hframe, next_eq (q.push { kind }) (hlexer ▸ hnext), ok_bind]
    obtain rfl | rfl := hopens <;> rfl
  refine ⟨r, hhandle.trans hopen, rfl, ?_, ?_⟩
  · exact { hpushed with ref := fun hne => absurd (congrArg Leftover.ref hleft) hne }
  · rw [← show q.token = p.token from congrArg Lexer.token hlexer]
    simp only [track, r, leave, moved, Scanner.push, hleft]
    rfl

/-- A brace opens a frame in both. -/
theorem does_openBrace (hkind : p.token.kind = .openBrace) (hv : p.track.openBrace p.token = some v) :
    p.Does lx v := by
  have hprev : p.track.prev = p.bare.prev ∧ p.track.lastClosed.kind = p.bare.lastClosed.kind ∧
      p.track.stmtStart = p.left.stmtStart := ⟨rfl, rfl, rfl⟩
  -- the brace opens the body of a function behind its parameters, whose writes are discarded,
  -- or else a block
  unfold Track.openBrace at hv
  rw [hprev.1, hprev.2.1, hprev.2.2] at hv
  split at hv
  · rename_i hbody
    let count := p.bare.lastClosed.writeCount
    let r := p.bare.discardWrites count
    obtain ⟨hr, hdiscard, hleft, hlexer⟩ : r.Tame ∧ r.track = p.bare.track.discard count ∧ r.left = {} ∧
        r.lexer = p.lexer := h.bare.discardWrites _
    have hobject : (r.top.kind == .object) = false := hr.kind_bne
    have hplain : braceFrame.plain p.left.stmtStart p.bare =
        ({ kind := .functionBody }, { r with pendingFunction := none }) := by
      unfold braceFrame.plain
      rw [if_pos hbody]
      refine Prod.ext ?_ rfl
      dsimp only
      congr 1
      split
      · rename_i body heq
        rw [hr.pendingFunction body heq, ite_eq_left_iff]
        exact fun _ => hobject
      · exact hobject
    have hsame : ((r.track.push .functionBody).next p.token true : Track) =
        ((p.track.discard count).push .functionBody).next p.token true := by
      rw [hdiscard]
      unfold Track.discard
      rw [show p.bare.track.writes.length = p.track.writes.length from rfl]
      split <;> rfl
    rw [← Option.some.inj hv, show p.track.lastClosed.writeCount = count from rfl, ← hsame]
    exact does_brace h hnext hhandle (q := { r with pendingFunction := none }) hkind (.inl rfl) hplain
      { hr with pendingFunction := by rintro _ ⟨⟩ } hleft hlexer
  · rename_i hbody
    split at hv
    · rename_i hblock
      rw [Bool.and_eq_true, decide_eq_true_eq] at hblock
      have hplain : braceFrame.plain p.left.stmtStart p.bare = ({ kind := .block }, p.bare) := by
        unfold braceFrame.plain
        rw [if_neg hbody, if_neg hblock.1, if_pos (by rw [hblock.2]; rfl)]
      rw [← Option.some.inj hv]
      exact does_brace h hnext hhandle (q := p.bare) hkind (.inr rfl) hplain h.bare rfl rfl
    · cases hv

end

/-- A token is handled as the track says. -/
theorem Tame.does (h : p.Tame) (hnext : p.lexer.next = .ok lx) (hv : p.track.handle p.token = some v) :
    p.Does lx v := by
  have hprev : p.track.prev = p.prev := rfl
  unfold Track.handle at hv
  rw [hprev] at hv
  by_cases hquestion : p.prev = .questionDot
  · rw [if_pos hquestion] at hv
    cases hv
  rw [if_neg hquestion] at hv
  -- behind a dot a name is the name of a property, and nothing is tracked
  cases hdot : (p.prev = .dot && p.token.kind.isName : Bool) with
  | true =>
      rw [hdot, if_pos rfl] at hv
      cases hv
      refine does_next hnext (q := p.bare) ?_ h.bare rfl rfl
      have hcond : ((p.prev = .dot || p.prev = .questionDot) &&
          (p.token.kind.isName || p.token.kind = .privateName)) = true := by
        simp_all
      rw [handle, hcond, if_pos rfl]
  | false =>
      rw [hdot, if_neg Bool.false_ne_true] at hv
      -- every other token is handled by its kind, one lemma for each
      have hhandle : p.token.kind ≠ .privateName → p.handle = p.bare.stepKind p.left := by
        intro hne
        have hcond : ((p.prev = .dot || p.prev = .questionDot) &&
            (p.token.kind.isName || p.token.kind = .privateName)) = false := by
          simp_all
        rw [handle, hcond, if_neg Bool.false_ne_true]
      split at hv
      case h_1 hkind =>
        split at hv
        · cases hv
        · rename_i hreserved
          exact Option.some.inj hv ▸ does_identifier h hnext (hhandle (by simp [hkind])) hkind
            fun hmem => hreserved (List.contains_iff_mem.2 hmem)
      case h_2 hkind => exact Option.some.inj hv ▸ does_operand h hnext (hhandle (by simp [hkind])) (.inl hkind)
      case h_3 hkind => exact Option.some.inj hv ▸ does_operand h hnext (hhandle (by simp [hkind])) (.inr hkind)
      case h_4 hkind => exact Option.some.inj hv ▸ does_plus h hnext (hhandle (by simp [hkind])) hkind
      case h_5 hkind => exact Option.some.inj hv ▸ does_openParen h hnext (hhandle (by simp [hkind])) hkind
      case h_6 hkind => exact Option.some.inj hv ▸ does_openBracket h hnext (hhandle (by simp [hkind])) hkind
      case h_7 hkind =>
        split at hv
        · exact does_closeParen h hnext (hhandle (by simp [hkind])) hkind ‹_› hv
        · cases hv
      case h_8 hkind =>
        split at hv
        · exact does_closeBracket h hnext (hhandle (by simp [hkind])) hkind ‹_› hv
        · cases hv
      case h_9 hkind => exact does_openBrace h hnext (hhandle (by simp [hkind])) hkind hv
      case h_10 hkind =>
        split at hv
        · exact does_closeBrace h hnext (hhandle (by simp [hkind])) hkind ‹_› hv
        · cases hv
      case h_11 hkind => exact Option.some.inj hv ▸ does_semicolon h hnext (hhandle (by simp [hkind])) hkind
      case h_12 hkind => exact Option.some.inj hv ▸ does_comma h hnext (hhandle (by simp [hkind])) hkind
      case h_13 hkind => exact Option.some.inj hv ▸ does_question h hnext (hhandle (by simp [hkind])) hkind
      case h_14 hkind => exact does_colon h hnext (hhandle (by simp [hkind])) hkind hv
      case h_15 hkind => exact Option.some.inj hv ▸ does_update h hnext (hhandle (by simp [hkind])) (.inl hkind)
      case h_16 hkind => exact Option.some.inj hv ▸ does_update h hnext (hhandle (by simp [hkind])) (.inr hkind)
      case h_17 hkind =>
        split at hv
        · exact Option.some.inj hv ▸ does_function h hnext (hhandle (by simp [hkind])) hkind ‹_›
        · cases hv
      case h_18 =>
        split at hv
        · rename_i hassign
          obtain ⟨b, hb, rfl⟩ := Option.map_eq_some_iff.1 hv
          exact does_assign h hnext (hhandle (by rintro heq; rw [heq] at hassign; cases hassign)) hassign hb
        · cases hv

/-- The scanner does to its track what a token does to it. -/
theorem track_step (h : p.Tame) (hnext : p.lexer.next = .ok lx) (hv : p.track.step p.token = some v) :
    ∃ q, p.step = .ok q ∧ q.lexer = lx ∧ q.Tame ∧ q.track = v := by
  obtain ⟨r, hstep, hr, htrack, hlexer⟩ := step_eq h
  have htoken : r.token = p.token := congrArg Lexer.token hlexer
  rw [hstep]
  refine hr.does (hlexer ▸ hnext) ?_
  rw [htrack, htoken]
  exact hv

/-- A slash is not handled, and an assignment only after a variable. -/
theorem ref_of_handle_slash {w : Track} {t : Token} (hkind : t.kind = .slash ∨ t.kind = .slashAssign)
    (hv : w.handle t = some v) : w.ref ≠ none := by
  unfold Track.handle at hv
  split at hv
  · cases hv
  obtain hkind | hkind := hkind
  · simp [hkind, show TokenKind.isName .slash = false from rfl, show TokenKind.isAssign .slash = false from rfl] at hv
  · simp only [hkind, show TokenKind.isName .slashAssign = false from rfl, Bool.and_false, Bool.false_eq_true,
      reduceIte, show TokenKind.isAssign .slashAssign = true from rfl] at hv
    obtain ⟨b, hb, -⟩ := Option.map_eq_some_iff.1 hv
    simp [hb]

/-- A token of the programs is not read again. -/
theorem retokenize_eq (h : p.Tame) (hv : p.track.step p.token = some v) : p.retokenize = .ok p := by
  have hslash : p.token.kind = .slash ∨ p.token.kind = .slashAssign → p.exprAllowed = false := by
    intro hkind
    have href := ref_of_handle_slash hkind hv
    refine (h.ref fun hnone => href ?_).2
    have hnone' : (p.track.settleUpdate p.token).ref = none := hnone
    unfold Track.settle Track.settleLine
    split
    · rfl
    · exact hnone'
  unfold retokenize
  split
  · rename_i hkind
    rw [hslash (.inl hkind)]
    rfl
  · rename_i hkind
    rw [hslash (.inr hkind)]
    rfl
  · have htemplate : p.top.kind ≠ .template := by
      intro heq
      have := h.top.kind
      rw [heq] at this
      cases this
    exact if_neg htemplate
  · rfl

/-- The end of the source is not handled, nor a first line for the shell. -/
theorem kind_of_handle {w : Track} {t : Token} (hv : w.handle t = some v) :
    t.kind ≠ .endOfFile ∧ t.kind ≠ .hashbang := by
  unfold Track.handle at hv
  constructor <;>
  · intro hkind
    simp [hkind, TokenKind.isName, TokenKind.isAssign, TokenKind.ctorIdx] at hv

variable {ts : List Token} {e : Token}

/-- The scanner does to its track what the tokens up to the end do to it. -/
theorem track_run (h : p.Tame) (hts : p.lexer.Yields (ts ++ [e])) (he : e.kind = .endOfFile)
    (hv : p.track.run ts = some v) {fuel : Nat} (hfuel : ts.length < fuel) :
    ∃ q, p.run fuel = .ok q ∧ q.Tame ∧ q.track = v ∧ q.token = e := by
  induction ts generalizing p fuel with
  | nil =>
      obtain ⟨fuel, rfl⟩ := Nat.exists_eq_succ_of_ne_zero (Nat.ne_zero_of_lt hfuel)
      have htoken : p.token = e := (Option.some.inj hts.head).symm
      refine ⟨p, ?_, h, Option.some.inj hv, htoken⟩
      have hretokenize : p.retokenize = .ok p := by
        unfold retokenize
        rw [htoken, he]
        rfl
      rw [run, hretokenize, ok_bind, if_pos (htoken ▸ he)]
      rfl
  | cons t ts ih =>
      obtain ⟨fuel, rfl⟩ := Nat.exists_eq_succ_of_ne_zero (Nat.ne_zero_of_lt hfuel)
      obtain ⟨w, hw, hrun⟩ := Option.bind_eq_some_iff.1 hv
      have hkind := (kind_of_handle hw).1
      obtain ⟨htoken, lx, hnext, hrest⟩ := hts.cons_inv hkind
      have htoken' : p.token = t := htoken
      rw [← htoken'] at hw hkind
      obtain ⟨q, hstep, rfl, hq, rfl⟩ := track_step h hnext hw
      obtain ⟨r, hr, hrest⟩ := ih hq hrest hrun (Nat.lt_of_succ_lt_succ hfuel)
      refine ⟨r, ?_, hrest⟩
      rw [run, retokenize_eq h hw, ok_bind, if_neg hkind, hstep, ok_bind, hr]

/-- At the end of the source the writes are those of the track. -/
theorem Tame.finish (h : p.Tame) (hbelow : p.below = []) (he : p.token.kind = .endOfFile) :
    ∃ o, p.finish = .ok o ∧ o.writes = p.track.finish p.token ∧ o.statements = [] := by
  have hfinish : p.finish = .ok (p.settleUpdate.closeWrites 0).outline := by
    have hmember : continuesMember p.token.kind = false := by rw [he]; rfl
    unfold Scanner.finish Scanner.settleUpdate
    rw [if_pos (by rw [hbelow]; rfl)]
    cases hpending : p.pendingUpdate with
    | none => rfl
    | some u =>
        have hmember' : ¬ continuesMember ({ p with pendingUpdate := none } : Scanner).token.kind = true :=
          ne_true_of_eq_false hmember
        dsimp only
        rw [if_neg hmember']
        rfl
  have hall : (fun c : PendingClose => decide (0 ≤ c.depth)) = fun _ => true := funext fun c => by simp
  refine ⟨_, hfinish, ?_, ?_⟩
  · rw [closeWrites, hall, settleUpdate_eq]
    rfl
  · rw [settleUpdate_eq]
    exact h.statements

end ModuleSystem.Scanner

namespace ModuleSystem.Outline

variable {s : Source} {ts : List Token} {e : Token} {v : Track}

/-- A source whose tokens the track passes can be read, and its writes are those of the track. -/
theorem read_of_run (hlexes : s.Lexes (ts ++ [e])) (he : e.kind = .endOfFile)
    (hv : Track.run {} ts = some v) (hbelow : v.below = []) :
    ∃ o, Outline.read s = .ok o ∧ o.writes = v.finish e := by
  have hlength := hlexes.length_le
  obtain ⟨lx, hstart, hyields⟩ := hlexes
  -- the track passes no hashbang
  have hhead : lx.token.kind ≠ .hashbang := by
    cases ts with
    | nil =>
        have htoken : e = lx.token := Option.some.inj hyields.head
        rw [← htoken, he]
        decide
    | cons t ts =>
        have htoken : t = lx.token := Option.some.inj hyields.head
        obtain ⟨w, hw, -⟩ := Option.bind_eq_some_iff.1 hv
        exact htoken ▸ (Scanner.kind_of_handle hw).2
  let p : Scanner := { lexer := lx }
  have hp : p.Tame :=
    { top := ⟨rfl, rfl, rfl, rfl, rfl, rfl⟩
      below := by simp [p]
      keyPosition := rfl
      nextParen := rfl
      pendingLet := rfl
      pendingClass := rfl
      pendingFunction := by rintro _ ⟨⟩
      ref := fun hne => absurd rfl hne
      statements := rfl }
  rw [List.length_append, List.length_singleton] at hlength
  have hfuel : ts.length < s.contents.length + 2 := by omega
  obtain ⟨q, hrun, hq, htrack, htoken⟩ := Scanner.track_run hp hyields he hv hfuel
  have hbelow' : q.below = [] := by
    rw [← htrack] at hbelow
    exact List.map_eq_nil_iff.1 hbelow
  obtain ⟨o, hfinish, hwrites, hstatements⟩ := hq.finish hbelow' (htoken ▸ he)
  refine ⟨o, ?_, by rw [hwrites, htrack, htoken]⟩
  have hscan : scan s = .ok o := by
    rw [scan, hstart, ok_bind, if_neg hhead]
    change (p.run (s.contents.length + 2) >>= Scanner.finish) = .ok o
    rw [hrun, ok_bind, hfinish]
  -- without statements there is nothing that the last check could refuse
  have hcheck : o.check s = [] := by
    unfold check assignedImports importedNames
    rw [hstatements]
    simp [repeated]
  unfold Outline.read
  rw [hscan]
  dsimp only
  rw [hcheck]
  rfl

end ModuleSystem.Outline
