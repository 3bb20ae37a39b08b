import ModuleSystem.Proofs.Writes.Expressions
import ModuleSystem.Proofs.Writes.Tracking

/-!
# Programs of expressions, blocks and functions

`Program b ts kept defaults lost`: the tokens `ts` are statements, each of which ends with a semicolon, a
line or a brace.  Of their assignments, `kept` are recorded, `defaults` are the defaults of parameters, and
`lost` are the ones that a brace takes along: a brace after a closing parenthesis opens the body of a
function, whatever came before the parenthesis.

* `Program.passes`: the track passes a program, and holds what is kept.
* `Program.accounts`: there are no other assignments.
* `read_program`: a source that is a program can be read, and its writes are those that are kept.
-/

namespace ModuleSystem

open Token (stopOf)
open Scanner (continuesMember startsStatement)

/-- A parameter: its default, and the assignments inside of the default. -/
inductive Parameter (inFunction : Bool) : List Token → List Write → List Write → Prop where
  | plain {x : Token} (hx : x.IsVariable) : Parameter inFunction [x] [] []
  | withDefault {x o : Token} {ts : List Token} {ws : List Write} {n : Option Nat} (hx : x.IsVariable)
      (ho : o.kind = .assign) (h : Phrase inFunction .assignment ts ws n) :
      Parameter inFunction (x :: o :: ts) [⟨[x.binding], x.start, stopOf ts, inFunction⟩] ws

/-- Parameters with commas between them. -/
inductive Parameters (inFunction : Bool) : List Token → List Write → List Write → Prop where
  | one {ts : List Token} {ds ws : List Write} (h : Parameter inFunction ts ds ws) :
      Parameters inFunction ts ds ws
  | more {o : Token} {ts us : List Token} {ds ds' ws ws' : List Write} (hl : Parameters inFunction ts ds ws)
      (ho : o.kind = .comma) (hr : Parameter inFunction us ds' ws') :
      Parameters inFunction (ts ++ o :: us) (ds ++ ds') (ws ++ ws')

/-- The tokens are statements. -/
inductive Program : Bool → List Token → List Write → List Write → List Write → Prop where
  | nil {b : Bool} : Program b [] [] [] []
  | last {b : Bool} {ts : List Token} {ws : List Write} {n : Option Nat} (h : Phrase b .elements ts ws n) :
      Program b ts ws [] []
  | semicolon {b : Bool} {o : Token} {ts us : List Token} {ws kept defaults lost : List Write} {n : Option Nat}
      (h : Phrase b .elements ts ws n) (ho : o.kind = .semicolon) (hrest : Program b us kept defaults lost) :
      Program b (ts ++ o :: us) (ws ++ kept) defaults lost
  | line {b : Bool} {t : Token} {ts us : List Token} {ws kept defaults lost : List Write} {n : Option Nat}
      (h : Phrase b .elements ts ws n) (hline : t.newlineBefore = true)
      (hstarts : startsStatement t.kind = true) (hcall : n = none ∨ t.kind ≠ .openBrace)
      (hrest : Program b (t :: us) kept defaults lost) :
      Program b (ts ++ t :: us) (ws ++ kept) defaults lost
  /-- A block after a line that ends with a parenthesis: what is assigned inside of it is lost, and what is
  assigned in the block seems to be in a function. -/
  | lineBlock {b : Bool} {o c : Token} {ts us xs : List Token} {n : Nat}
      {ws kept defaults lost kept' defaults' lost' : List Write}
      (h : Phrase b .elements ts ws (some n)) (ho : o.kind = .openBrace) (hline : o.newlineBefore = true)
      (hbody : Program true us kept defaults lost) (hc : c.kind = .closeBrace)
      (hrest : Program b xs kept' defaults' lost') :
      Program b (ts ++ o :: (us ++ c :: xs)) (ws.take (ws.length - n) ++ kept ++ kept') (defaults ++ defaults')
        (ws.drop (ws.length - n) ++ lost ++ lost')
  | block {b : Bool} {o c : Token} {us xs : List Token} {kept defaults lost kept' defaults' lost' : List Write}
      (ho : o.kind = .openBrace) (hbody : Program b us kept defaults lost) (hc : c.kind = .closeBrace)
      (hrest : Program b xs kept' defaults' lost') :
      Program b (o :: (us ++ c :: xs)) (kept ++ kept') (defaults ++ defaults') (lost ++ lost')
  | function {b : Bool} {f x p q o c : Token} {ts us xs : List Token}
      {ds ws kept defaults lost kept' defaults' lost' : List Write}
      (hf : f.kind = .kwFunction) (hx : x.IsVariable) (hp : p.kind = .openParen)
      (hparameters : (ts = [] ∧ ds = [] ∧ ws = []) ∨ Parameters b ts ds ws) (hq : q.kind = .closeParen)
      (ho : o.kind = .openBrace) (hbody : Program true us kept defaults lost) (hc : c.kind = .closeBrace)
      (hrest : Program b xs kept' defaults' lost') :
      Program b (f :: x :: p :: (ts ++ q :: o :: (us ++ c :: xs))) (kept ++ kept') (ds ++ defaults ++ defaults')
        (ws ++ lost ++ lost')

/-! ### Parameters are expressions -/

/-- A parameter reads as an assignment. -/
theorem Parameter.phrase {b : Bool} {ts : List Token} {ds ws : List Write} (h : Parameter b ts ds ws) :
    ∃ n, Phrase b .assignment ts (ds ++ ws) n := by
  cases h with
  | plain hx => exact ⟨_, (Phrase.name hx).loosen (by decide)⟩
  | withDefault hx ho h => exact ⟨_, .assign hx (by rw [ho]; rfl) h⟩

/-- Parameters read as a list. -/
theorem Parameters.phrase {b : Bool} {ts : List Token} {ds ws : List Write} (h : Parameters b ts ds ws) :
    ∃ vs n, Phrase b .elements ts vs n := by
  induction h with
  | one h =>
      obtain ⟨n, h⟩ := h.phrase
      exact ⟨_, n, h.loosen (by decide)⟩
  | more _ ho hr ih =>
      obtain ⟨vs, m, hl⟩ := ih
      obtain ⟨n, hr⟩ := hr.phrase
      exact ⟨_, n, .comma hl ho hr⟩

/-- A parenthesis that is closed last contains no more than the whole expression. -/
theorem Phrase.count_le {b : Bool} {part : Part} {ts : List Token} {ws : List Write} {n : Option Nat}
    (h : Phrase b part ts ws n) : ∀ k ∈ n, k ≤ ws.length := by
  induction h with
  | loosen _ _ ih => exact ih
  | group => rintro _ ⟨⟩; exact le_rfl
  | call => rintro _ ⟨⟩; simp
  | callEmpty => rintro _ ⟨⟩; exact Nat.zero_le _
  | add _ _ _ _ ih | comma _ _ _ _ ih =>
      intro k hk
      rw [List.length_append]
      exact (ih k hk).trans (Nat.le_add_left _ _)
  | choose _ _ _ _ _ _ _ ih =>
      intro k hk
      rw [List.length_append, List.length_append]
      exact (ih k hk).trans ((Nat.le_add_left _ _).trans (Nat.le_add_left _ _))
  | assign _ _ _ ih => exact fun k hk => (ih k hk).trans (Nat.le_succ _)
  | _ => nofun

namespace Track

variable {u v w : Track} {t o c x : Token} {ts us xs : List Token} {ws vs : List Write} {stop : Nat} {n : Option Nat}
  {b : Bool}

/-! ### Between statements -/

/-- No expression is going on, and no assignment is open. -/
structure Between (b : Bool) (v : Track) : Prop where
  pendingUpdate : v.pendingUpdate = none
  closes : v.closes = []
  holds : v.top.kind.holdsStatements = true
  ternaries : v.top.ternaries = 0
  inFunction : decide (0 < v.functionDepth) = b

/-- A statement may start with the next token. -/
structure Ready (b : Bool) (v : Track) : Prop extends Begins v, Between b v where
  stmtStart : v.stmtStart = true
  arrow : v.prev ≠ .equalsGreaterThan

theorem Between.surrounds (h : Between b v) (part : Part) : v.Surrounds part := by simp [Surrounds, h.closes]

/-- Behind a statement the track is between statements as before it. -/
theorem Keeps.between (h : Keeps u v ws) (hu : Between b u) (hpending : v.pendingUpdate = none) : Between b v where
  pendingUpdate := hpending
  closes := h.closes.trans hu.closes
  holds := h.top ▸ hu.holds
  ternaries := h.top ▸ hu.ternaries
  inFunction := h.functionDepth ▸ hu.inFunction

/-- Where a statement ends, its assignments end too. -/
theorem Holds.endStatement (h : Holds u v t.prevStop ws) (hu : Between b u) (hmember : continuesMember t.kind = false) :
    (v.settleUpdate t).endStatement t.prevStop =
      { v with pendingUpdate := none, closes := u.closes, writes := u.writes ++ ws, top := u.top } := by
  have htop : ({ (v.settleUpdate t).top with ternaries := 0 } : Level) = u.top := by
    rw [show (v.settleUpdate t).top = u.top from h.top, ← hu.ternaries]
  rw [Track.endStatement, htop, h.closeAll hmember rfl (by simp [hu.closes])]

theorem continuesMember_of_starts {k : TokenKind} (h : startsStatement k = true) : continuesMember k = false := by
  cases k <;> first | rfl | exact absurd h (by decide)

/-- A line that starts a statement ends the expression before it. -/
theorem Done.settle_line (h : Done .elements u v t.prevStop ws n) (hu : Between b u) (hline : t.newlineBefore = true)
    (hstarts : startsStatement t.kind = true) :
    v.settle t =
      { v with
        pendingUpdate := none, closes := u.closes, writes := u.writes ++ ws, top := u.top, ref := none,
        stmtStart := true } := by
  have hstartsLine : (v.settleUpdate t).startsLine t = true := by
    have hholds : (v.settleUpdate t).top.kind.holdsStatements = true := h.top ▸ hu.holds
    have hexpr : (v.settleUpdate t).exprAllowed = false := h.exprAllowed
    rw [startsLine, hline, hstarts, hexpr, hholds]
    rfl
  rw [Track.settle, settleLine, if_pos hstartsLine, h.toHolds.endStatement hu (continuesMember_of_starts hstarts)]

/-- A line terminator before what starts a statement ends the one before. -/
theorem Keeps.settle_line (h : Done .elements u v t.prevStop ws n) (hu : Between b u) (hline : t.newlineBefore = true)
    (hstarts : startsStatement t.kind = true) : Keeps u (v.settle t) ws := by
  rw [h.settle_line hu hline hstarts]
  exact ⟨h.functionDepth, rfl, h.below, rfl, rfl⟩

/-- Of the assignments, as many as stand in the last parenthesis are forgotten. -/
theorem Keeps.discard {count k : Nat} (h : Keeps u v ws) (hu : Between b u) (hk : k ≤ ws.length)
    (hcount : count + k = u.writes.length + ws.length) :
    Keeps u (v.discard count) (ws.take (ws.length - k)) := by
  have hlength : v.writes.length = u.writes.length + ws.length := by rw [h.writes, List.length_append]
  unfold Track.discard
  split
  · have hzero : k = 0 := by omega
    rw [hzero, Nat.sub_zero, List.take_length]
    exact h
  · have htake : count = u.writes.length + (ws.length - k) := by omega
    refine ⟨h.functionDepth, h.top, h.below, ?_, ?_⟩
    · simp [h.closes, hu.closes]
    · simp only
      rw [h.writes, htake, List.take_length_add_append]

/-! ### Braces -/

/-- The state after an opening brace. -/
def body (v : Track) (kind : FrameKind) (o : Token) : Track := { v.opened kind o with stmtStart := true }

/-- A brace opens a block or the body of a function. -/
theorem handle_openBrace (ho : o.kind = .openBrace) (hprev : v.prev ≠ .dot ∧ v.prev ≠ .questionDot) :
    v.handle o = v.openBrace o := by
  simp [handle, ho, hprev.1, hprev.2]

/-- A brace closes a block or the body of a function. -/
theorem handle_closeBrace (hc : c.kind = .closeBrace) (hprev : v.prev ≠ .dot ∧ v.prev ≠ .questionDot)
    (htop : v.top.kind = .block ∨ v.top.kind = .functionBody) :
    v.handle c = (v.close c).map fun v => { v.next c true with stmtStart := v.top.kind.holdsStatements } := by
  simp [handle, hc, hprev.1, hprev.2, htop]

/-- Braces whose body is, or is not, in a function. -/
inductive IsBody (b : Bool) : FrameKind → Bool → Prop where
  | block : IsBody b .block b
  | functionBody : IsBody b .functionBody true

variable {kind : FrameKind} {b' : Bool}

/-- Within a body the track is ready for statements. -/
theorem IsBody.ready (h : IsBody b kind b') (hv : Between b v) (ho : o.kind = .openBrace) :
    Ready b' (v.body kind o) where
  pendingUpdate := hv.pendingUpdate
  ref := rfl
  update := rfl
  prev := by simp [body, opened, next, ho]
  closes := hv.closes
  holds := by cases h <;> rfl
  ternaries := rfl
  inFunction := by
    cases h with
    | block => exact hv.inFunction
    | functionBody => simp [body, opened, push, next]
  stmtStart := rfl
  arrow := by simp [body, opened, next, ho]

/-- The next statement follows a closing brace. -/
theorem IsBody.step_close (h : IsBody b kind b') (hv : Between b v) (hc : c.kind = .closeBrace)
    (hw : Holds (v.body kind o) w c.prevStop ws) :
    ∃ z, w.step c = some z ∧ Keeps v z ws ∧ Ready b z ∧ z.exprAllowed = true ∧ z.prev = .closeBrace := by
  have hpushed : Holds (v.push kind) w c.prevStop ws := ⟨hw.functionDepth, hw.top, hw.below, hw.prev, hw.writes⟩
  have hkind : (w.settleUpdate c).top.kind = .block ∨ (w.settleUpdate c).top.kind = .functionBody := by
    rw [show (w.settleUpdate c).top = (v.push kind).top from hw.top]
    cases h
    · exact .inl rfl
    · exact .inr rfl
  have hclose := handle_closeBrace (v := w.settleUpdate c) hc hw.prev hkind
  rw [hpushed.close (by rw [hc]; rfl) (by simp [hv.closes]), Option.map_some] at hclose
  refine ⟨_, (step_eq (by rw [hc]; rfl)).trans hclose, ⟨rfl, rfl, rfl, rfl, rfl⟩, ?_, rfl, hc⟩
  exact
    { pendingUpdate := rfl
      ref := rfl
      update := rfl
      prev := by simp [next, hc]
      closes := hv.closes
      holds := hv.holds
      ternaries := hv.ternaries
      inFunction := hv.inFunction
      stmtStart := hv.holds
      arrow := by simp [next, hc] }

/-- The track passes statements, and the token after them ends what they leave open. -/
def Runs (b : Bool) (ts : List Token) (ws : List Write) : Prop :=
  ∀ u e, Ready b u → (u.prev = .closeParen → ∀ t ∈ ts.head?, t.kind ≠ .openBrace) → Chained (ts ++ [e]) →
    ∃ v, u.enter ts = some v ∧ Holds u v e.prevStop ws

/-- The track passes braces and what follows. -/
theorem Runs.braces {e : Token} (hbody : Runs b' us ws) (hrest : Runs b xs vs) (h : IsBody b kind b') (hv : Between b v)
    (ho : o.kind = .openBrace) (hc : c.kind = .closeBrace) (hchain : Chained (us ++ c :: (xs ++ [e]))) :
    ∃ w, (v.body kind o).run (us ++ c :: xs) = some w ∧ Holds v w e.prevStop (ws ++ vs) := by
  obtain ⟨hus, hxs⟩ := List.isChain_split.1 hchain
  have hparen : (v.body kind o).prev ≠ .closeParen := by simp [body, opened, next, ho]
  obtain ⟨w, hw, hholds⟩ := hbody _ c (h.ready hv ho) (absurd · hparen) hus
  obtain ⟨z, hz, hkeeps, hready, hexpr, hprev⟩ := h.step_close hv hc hholds
  obtain ⟨y, hy, hholds'⟩ := hrest z e hready (by simp [hprev]) hxs.tail
  refine ⟨y, ?_, hkeeps.holds hholds'⟩
  rw [run_append, run_eq_enter (v := v.body kind o) hv.pendingUpdate rfl, hw, Option.bind_some, run_cons, hz,
    Option.bind_some, run_eq_enter hready.pendingUpdate hexpr, hy]

/-- A brace after a parenthesis takes the assignments in the parenthesis along. -/
theorem Runs.braces_after {e : Token} {k : Nat} {ys : List Write} (hbody : Runs true us ws) (hrest : Runs b xs vs)
    (hu : Between b u) (hv : Keeps u v ys)
    (hpending : v.pendingUpdate = none) (hprev : v.prev = .closeParen) (hlast : v.lastClosed.kind = .paren)
    (hk : k ≤ ys.length) (hcount : v.lastClosed.writeCount + k = u.writes.length + ys.length)
    (ho : o.kind = .openBrace) (hc : c.kind = .closeBrace) (hchain : Chained (us ++ c :: (xs ++ [e]))) :
    ∃ w, v.enter (o :: (us ++ c :: xs)) = some w ∧ Holds u w e.prevStop (ys.take (ys.length - k) ++ ws ++ vs) := by
  have hopen : v.handle o = some ((v.discard v.lastClosed.writeCount).body .functionBody o) := by
    rw [handle_openBrace ho (by simp [hprev]), openBrace, hprev, hlast]
    rfl
  have hkeeps := hv.discard hu hk hcount
  have hpending' : (v.discard v.lastClosed.writeCount).pendingUpdate = none := by
    unfold Track.discard
    split
    · exact hpending
    · exact hpending
  obtain ⟨w, hw, hholds⟩ := hbody.braces hrest .functionBody (hkeeps.between hu hpending') ho hc hchain
  refine ⟨w, ?_, ?_⟩
  · rw [enter, hopen, Option.bind_some, hw]
  · rw [List.append_assoc]
    exact hkeeps.holds hholds

/-! ### Statements -/

theorem Runs.nil : Runs b [] [] := fun u _ hu _ _ => ⟨u, rfl, hu.toBegins.holds _⟩

/-- A program may end with an expression. -/
theorem Runs.last (h : Passes b .elements ts ws n) (hne : ts ≠ []) : Runs b ts ws := by
  intro u e hu _ hts
  obtain ⟨hts, hstop, -⟩ := hts.split hne
  obtain ⟨v, hv, hdone⟩ := h u hu.toBegins (hu.surrounds _) hu.inFunction hts
  exact ⟨v, hv, hstop ▸ hdone.toHolds⟩

/-- An expression may end with a semicolon. -/
theorem Runs.semicolon (h : Passes b .elements ts ws n) (ho : o.kind = .semicolon) (hrest : Runs b us vs)
    (hne : ts ≠ []) :
    Runs b (ts ++ o :: us) (ws ++ vs) := by
  intro u e hu _ hts
  rw [List.append_assoc] at hts
  obtain ⟨hts, hstop, hus⟩ := hts.split hne
  obtain ⟨v, hv, hdone⟩ := h u hu.toBegins (hu.surrounds _) hu.inFunction hts
  have hended := (hstop ▸ hdone).toHolds.endStatement hu.toBetween (by rw [ho]; rfl)
  have hstep : v.step o = some { ((v.settleUpdate o).endStatement o.prevStop).next o true with
      stmtStart := (v.settleUpdate o).top.kind.holdsStatements } := by
    rw [step_eq (by rw [ho]; rfl), handle_semicolon (v := v.settleUpdate o) ho hdone.prev]
  rw [hended, show (v.settleUpdate o).top = u.top from hdone.top] at hstep
  let w : Track := { ({ v with
      pendingUpdate := none, closes := u.closes, writes := u.writes ++ ws, top := u.top } : Track).next o true with
    stmtStart := u.top.kind.holdsStatements }
  have hkeeps : Keeps u w ws := ⟨hdone.functionDepth, rfl, hdone.below, rfl, rfl⟩
  have hready : Ready b w :=
    { hkeeps.between hu.toBetween rfl with
      ref := rfl
      update := rfl
      prev := by simp [w, next, ho]
      stmtStart := hu.holds
      arrow := by simp [w, next, ho] }
  obtain ⟨z, hz, hholds⟩ := hrest w e hready (by simp [w, next, ho]) hus
  refine ⟨z, ?_, hkeeps.holds hholds⟩
  rw [enter_append hne, hv, Option.bind_some, run_cons, hstep, Option.bind_some,
    run_eq_enter (v := w) rfl rfl, hz]

/-- An expression may end at a line terminator. -/
theorem Runs.line (h : Passes b .elements ts ws n) (hline : t.newlineBefore = true)
    (hstarts : startsStatement t.kind = true)
    (hcall : n = none ∨ t.kind ≠ .openBrace) (hrest : Runs b (t :: us) vs) (hne : ts ≠ []) :
    Runs b (ts ++ t :: us) (ws ++ vs) := by
  intro u e hu _ hts
  rw [List.append_assoc, List.cons_append] at hts
  have hus := hts.right_of_append
  obtain ⟨hts, hstop, -⟩ := hts.split hne
  obtain ⟨v, hv, hdone⟩ := h u hu.toBegins (hu.surrounds _) hu.inFunction hts
  have hsettle := (hstop ▸ hdone).settle_line hu.toBetween hline hstarts
  have hkeeps := Keeps.settle_line (hstop ▸ hdone) hu.toBetween hline hstarts
  have hprev : (v.settle t).prev = v.prev := by rw [hsettle]
  have hready : Ready b (v.settle t) :=
    { hkeeps.between hu.toBetween (by rw [hsettle]) with
      ref := by rw [hsettle]
      update := by rw [hsettle]; exact hdone.update
      prev := hprev ▸ hdone.prev
      stmtStart := by rw [hsettle]
      arrow := hprev ▸ hdone.arrow }
  have hbrace : (v.settle t).prev = .closeParen → ∀ t' ∈ (t :: us).head?, t'.kind ≠ .openBrace := by
    rintro hparen _ ⟨⟩
    refine hcall.resolve_left ?_
    rintro rfl
    exact hdone.last (hprev ▸ hparen)
  obtain ⟨z, hz, hholds⟩ := hrest _ e hready hbrace hus
  refine ⟨z, ?_, hkeeps.holds hholds⟩
  rw [enter_append hne, hv, Option.bind_some, run_cons, step]
  exact hz

/-- Before a block on another line, the writes in the last parenthesis are lost. -/
theorem Runs.lineBlock {k : Nat} {ys : List Write} (h : Passes b .elements ts ys (some k)) (hk : k ≤ ys.length)
    (ho : o.kind = .openBrace) (hline : o.newlineBefore = true) (hbody : Runs true us ws) (hc : c.kind = .closeBrace)
    (hrest : Runs b xs vs) (hne : ts ≠ []) : Runs b (ts ++ o :: (us ++ c :: xs)) (ys.take (ys.length - k) ++ ws ++ vs) := by
  intro u e hu _ hts
  rw [List.append_assoc, List.cons_append, List.append_assoc, List.cons_append] at hts
  obtain ⟨hts, hstop, hrest'⟩ := hts.split hne
  obtain ⟨v, hv, hdone⟩ := h u hu.toBegins (hu.surrounds _) hu.inFunction hts
  have hstarts : startsStatement o.kind = true := by rw [ho]; rfl
  have hsettle := (hstop ▸ hdone).settle_line hu.toBetween hline hstarts
  have hkeeps := Keeps.settle_line (hstop ▸ hdone) hu.toBetween hline hstarts
  obtain ⟨hparen, hlast, hcount⟩ := hdone.last
  have hsame : (v.settle o).prev = v.prev ∧ (v.settle o).lastClosed = v.lastClosed := by
    rw [hsettle]
    exact ⟨rfl, rfl⟩
  obtain ⟨z, hz, hholds⟩ := hbody.braces_after hrest hu.toBetween hkeeps (by rw [hsettle]) (hsame.1.trans hparen)
    (by rw [hsame.2, hlast]) hk (by rw [hsame.2, hcount]) ho hc hrest'
  refine ⟨z, ?_, hholds⟩
  rw [enter_append hne, hv, Option.bind_some, run_cons, step]
  exact hz

/-- A block has the writes of its statements. -/
theorem Runs.block (ho : o.kind = .openBrace) (hbody : Runs b us ws) (hc : c.kind = .closeBrace)
    (hrest : Runs b xs vs) :
    Runs b (o :: (us ++ c :: xs)) (ws ++ vs) := by
  intro u e hu hparen hts
  rw [List.cons_append, List.append_assoc, List.cons_append] at hts
  have hprev : u.prev ≠ .closeParen := fun heq => hparen heq o rfl ho
  have hopen : u.handle o = some (u.body .block o) := by
    rw [handle_openBrace ho hu.prev, openBrace, if_neg (by simp [hprev]), if_pos (by simp [hu.arrow, hu.stmtStart])]
    rfl
  obtain ⟨w, hw, hholds⟩ := hbody.braces hrest .block hu.toBetween ho hc hts.tail
  exact ⟨w, by rw [enter, hopen, Option.bind_some, hw], hholds⟩

/-- Nothing is left open where a brace follows a call, on its line or on the next one. -/
theorem Done.settle_brace (h : Done .callee u v t.prevStop ws n) (hu : Between b u) (ht : t.kind = .openBrace) :
    Keeps u (v.settle t) ws ∧ (v.settle t).pendingUpdate = none ∧ (v.settle t).prev = v.prev ∧
      (v.settle t).lastClosed = v.lastClosed := by
  cases hline : t.newlineBefore with
  | true =>
      have hstarts : startsStatement t.kind = true := by rw [ht]; rfl
      have helements : Track.Done .elements u v t.prevStop ws n := h.loosen (by decide)
      refine ⟨Keeps.settle_line helements hu hline hstarts, ?_⟩
      rw [helements.settle_line hu hline hstarts]
      exact ⟨rfl, rfl, rfl⟩
  | false =>
      have hsettle : v.settle t = v := by
        rw [Track.settle, settleUpdate_eq (h.callee rfl), settleLine, startsLine, hline, Bool.false_and, Bool.false_and,
          Bool.false_and, if_neg Bool.false_ne_true]
      rw [hsettle]
      exact ⟨h.keeps, h.callee rfl, rfl, rfl⟩

/-- A function has the writes of its body, and those of its parameters are discarded. -/
theorem Runs.function {f : Token} {ys : List Write} (hf : f.kind = .kwFunction)
    (h : Passes b .callee ts ys (some ys.length))
    (ho : o.kind = .openBrace) (hbody : Runs true us ws) (hc : c.kind = .closeBrace) (hrest : Runs b xs vs)
    (hne : ts ≠ []) : Runs b (f :: (ts ++ o :: (us ++ c :: xs))) (ws ++ vs) := by
  intro u e hu _ hts
  rw [List.cons_append, List.append_assoc, List.cons_append, List.append_assoc, List.cons_append] at hts
  have htail : Chained (ts ++ o :: (us ++ c :: (xs ++ [e]))) := hts.tail
  obtain ⟨hts, hstop, hrest'⟩ := htail.split hne
  have hword : u.handle f = some (u.next f true) := by
    simp [handle, hf, hu.prev.1, hu.prev.2, hu.stmtStart]
  have hbegins : (u.next f true).Begins := Begins.next hu.pendingUpdate (by simp [hf]) true
  have hbetween : Between b (u.next f true) := { hu.toBetween with }
  obtain ⟨v, hv, hdone⟩ := h _ hbegins (hbetween.surrounds _) hu.inFunction hts
  obtain ⟨hkeeps, hpending, hprev, hlast⟩ := (hstop ▸ hdone).settle_brace hbetween ho
  obtain ⟨hparen, hkind, hcount⟩ := hdone.last
  obtain ⟨z, hz, hholds⟩ := hbody.braces_after hrest hbetween hkeeps hpending (hprev.trans hparen) (hlast ▸ hkind)
    le_rfl (hlast ▸ hcount) ho hc hrest'
  refine ⟨z, ?_, ?_⟩
  · rw [enter, hword, Option.bind_some, run_eq_enter (v := u.next f true) hu.pendingUpdate rfl, enter_append hne, hv,
      Option.bind_some, run_cons, step]
    exact hz
  · rw [Nat.sub_self, List.take_zero, List.nil_append] at hholds
    exact ⟨hholds.functionDepth, hholds.top, hholds.below, hholds.prev, hholds.writes⟩

end Track

/-- The track passes a program, and holds what is kept. -/
theorem Program.passes {b : Bool} {ts : List Token} {kept defaults lost : List Write}
    (h : Program b ts kept defaults lost) : Track.Runs b ts kept := by
  induction h with
  | nil => exact .nil
  | last h => exact .last h.passes h.ne_nil
  | semicolon h ho _ ih => exact .semicolon h.passes ho ih h.ne_nil
  | line h hline hstarts hcall _ ih => exact .line h.passes hline hstarts hcall ih h.ne_nil
  | lineBlock h ho hline _ hc _ ihbody ih =>
      exact .lineBlock h.passes (h.count_le _ rfl) ho hline ihbody hc ih h.ne_nil
  | block ho _ hc _ ihbody ih => exact .block ho ihbody hc ih
  | @function _ _ x p q _ _ ts _ _ _ _ _ _ _ _ _ _ hf hx hp hparameters hq ho _ hc _ ihbody ih =>
      obtain ⟨ys, hcall⟩ : ∃ ys, Phrase _ .callee (x :: p :: (ts ++ [q])) ys (some ys.length) := by
        obtain ⟨rfl, -, -⟩ | hparameters := hparameters
        · exact ⟨_, .callEmpty (.name hx) hp hq⟩
        · obtain ⟨ys, n, hys⟩ := hparameters.phrase
          exact ⟨_, .call (.name hx) hp hq hys⟩
      have := Track.Runs.function hf hcall.passes ho ihbody hc ih (by simp)
      simpa using this

/-! ### All assignments -/

/-- The tokens that stand on the left of an assignment. -/
def assigned : List Token → List Token
  | x :: o :: ts => if o.kind.isAssign then x :: assigned (o :: ts) else assigned (o :: ts)
  | _ => []

/-- The tokens do not start with an assignment. -/
def StartsPlain (ts : List Token) : Prop := ∀ t ∈ ts.head?, t.kind.isAssign = false

/-- A token before what is no assignment is assigned nothing. -/
theorem assigned_cons {o : Token} {us : List Token} (h : StartsPlain us) : assigned (o :: us) = assigned us := by
  cases us with
  | nil => rfl
  | cons u us => rw [assigned, h u rfl, if_neg Bool.false_ne_true]

/-- What is assigned in two parts is assigned in the one or the other. -/
theorem assigned_append {ts us : List Token} (h : StartsPlain us) :
    assigned (ts ++ us) = assigned ts ++ assigned us := by
  induction ts with
  | nil => rfl
  | cons t ts ih =>
      cases ts with
      | nil => exact assigned_cons h
      | cons t' ts =>
          simp only [List.cons_append, assigned] at ih ⊢
          split <;> simp [ih]

/-- The assignments in the tokens are among the given ones. -/
def Accounts (ts : List Token) (ws : List Write) : Prop :=
  StartsPlain ts ∧ ∀ x ∈ assigned ts, ∃ w ∈ ws, w.targets = [x.binding] ∧ w.start = x.start

namespace Accounts

variable {x o c : Token} {ts us : List Token} {ws vs : List Write}

theorem nil : Accounts [] ws := ⟨nofun, nofun⟩

theorem mono (h : Accounts ts ws) (hsub : ws ⊆ vs) : Accounts ts vs :=
  ⟨h.1, fun x hx => (h.2 x hx).imp fun _ hw => ⟨hsub hw.1, hw.2⟩⟩

theorem left (h : Accounts ts ws) : Accounts ts (ws ++ vs) := h.mono (List.subset_append_left ws vs)

theorem right (h : Accounts ts vs) : Accounts ts (ws ++ vs) := h.mono (List.subset_append_right ws vs)

/-- Writes that account for two parts account for both together. -/
theorem append (hl : Accounts ts ws) (hr : Accounts us ws) : Accounts (ts ++ us) ws := by
  refine ⟨?_, fun x hx => ?_⟩
  · cases ts with
    | nil => exact hr.1
    | cons t ts => exact hl.1
  · rw [assigned_append hr.1, List.mem_append] at hx
    exact hx.elim (hl.2 x) (hr.2 x)

/-- A token that does not assign stands before other tokens. -/
theorem cons (ho : o.kind.isAssign = false) (h : Accounts us ws) : Accounts (o :: us) ws :=
  ⟨by rintro _ ⟨⟩; exact ho, by rw [assigned_cons h.1]; exact h.2⟩

/-- The write of an assignment accounts for its target. -/
theorem assign (hx : x.IsVariable) (ho : o.kind.isAssign = true) (h : Accounts ts ws) {stop : Nat} {b : Bool} :
    Accounts (x :: o :: ts) (⟨[x.binding], x.start, stop, b⟩ :: ws) := by
  refine ⟨by rintro _ ⟨⟩; rw [hx.kind]; rfl, fun y hy => ?_⟩
  rw [assigned, if_pos ho, assigned_cons h.1, List.mem_cons] at hy
  obtain rfl | hy := hy
  · exact ⟨_, List.mem_cons_self, rfl, rfl⟩
  · exact (h.2 y hy).imp fun _ hw => ⟨List.mem_cons_of_mem _ hw.1, hw.2⟩

end Accounts

theorem Token.IsVariable.accounts {x : Token} (hx : x.IsVariable) {ws : List Write} : Accounts [x] ws :=
  .cons (by rw [hx.kind]; rfl) .nil

/-- The writes of an expression account for all its assignments. -/
theorem Phrase.accounts {b : Bool} {part : Part} {ts : List Token} {ws : List Write} {n : Option Nat}
    (h : Phrase b part ts ws n) : Accounts ts ws := by
  induction h with
  | loosen _ _ ih => exact ih
  | name hx => exact hx.accounts
  | group ho hc _ ih | array ho hc _ ih =>
      exact .cons (by rw [ho]; rfl) (ih.append (.cons (by rw [hc]; rfl) .nil))
  | call _ ho hc _ ihf ih | index _ ho hc _ ihf ih =>
      exact ihf.left.append (.cons (by rw [ho]; rfl) (ih.right.append (.cons (by rw [hc]; rfl) .nil)))
  | callEmpty _ ho hc ihf => exact ihf.append (.cons (by rw [ho]; rfl) (.cons (by rw [hc]; rfl) .nil))
  | @member _ x _ _ _ _ hd hx _ ihf =>
      refine ihf.append (.cons (by rw [hd]; rfl) (.cons ?_ .nil))
      generalize x.kind = k at hx
      cases k <;> first | rfl | exact absurd hx (by decide)
  | number ht => exact .cons (by rw [ht]; rfl) .nil
  | arrayEmpty ho hc => exact .cons (by rw [ho]; rfl) (.cons (by rw [hc]; rfl) .nil)
  | after hx hu => exact hx.accounts.append (.cons (by obtain hu | hu := hu <;> rw [hu] <;> rfl) .nil)
  | before hu hx => exact .cons (by obtain hu | hu := hu <;> rw [hu] <;> rfl) hx.accounts
  | add _ ho _ ihl ihr | comma _ ho _ ihl ihr => exact ihl.left.append (.cons (by rw [ho]; rfl) ihr.right)
  | choose _ hq _ hc _ iht ihthen ihelse =>
      exact iht.left.append
        (.cons (by rw [hq]; rfl) (ihthen.left.right.append (.cons (by rw [hc]; rfl) ihelse.right.right)))
  | assign hx ho _ ih => exact ih.assign hx ho

/-- So do those of parameters, the default values included. -/
theorem Parameters.accounts {b : Bool} {ts : List Token} {ds ws : List Write} (h : Parameters b ts ds ws) :
    Accounts ts (ds ++ ws) := by
  have hone : ∀ {ts ds ws}, Parameter b ts ds ws → Accounts ts (ds ++ ws) := fun h =>
    h.phrase.elim fun _ h => h.accounts
  induction h with
  | one h => exact hone h
  | more _ ho hr ih =>
      refine (ih.mono ?_).append (.cons (by rw [ho]; rfl) ((hone hr).mono ?_))
      · intro w
        simp only [List.mem_append]
        grind
      · intro w
        simp only [List.mem_append]
        grind

/-- Every assignment of a program is kept, the default of a parameter or lost. -/
theorem Program.accounts {b : Bool} {ts : List Token} {kept defaults lost : List Write}
    (h : Program b ts kept defaults lost) : Accounts ts (kept ++ defaults ++ lost) := by
  induction h with
  | nil => exact .nil
  | last h => exact h.accounts.left.left
  | semicolon h ho _ ih => exact h.accounts.left.left.left.append (.cons (by rw [ho]; rfl) (ih.mono (by simp)))
  | line h _ _ _ _ ih => exact h.accounts.left.left.left.append (ih.mono (by simp))
  | @lineBlock _ _ _ _ _ _ n ws _ _ _ _ _ _ h ho _ _ hc _ ihbody ih =>
      refine (h.accounts.mono fun w hw => ?_).append (.cons (by rw [ho]; rfl)
        ((ihbody.mono fun w hw => ?_).append (.cons (by rw [hc]; rfl) (ih.mono fun w hw => ?_))))
      · -- some of the assignments of the line are the defaults of parameters
        rw [← List.take_append_drop (ws.length - n) ws] at hw
        simp only [List.mem_append] at hw ⊢
        grind
      all_goals
        simp only [List.mem_append] at hw ⊢
        grind
  | block ho _ hc _ ihbody ih =>
      refine .cons (by rw [ho]; rfl) ((ihbody.mono fun w hw => ?_).append
        (.cons (by rw [hc]; rfl) (ih.mono fun w hw => ?_)))
      all_goals
        simp only [List.mem_append] at hw ⊢
        grind
  | @function _ _ _ _ _ _ _ ts _ _ ds ws _ _ _ _ _ _ hf hx hp hparameters hq ho _ hc _ ihbody ih =>
      have hts : Accounts ts (ds ++ ws) := by
        obtain ⟨rfl, -, -⟩ | hparameters := hparameters
        · exact .nil
        · exact hparameters.accounts
      refine .cons (by rw [hf]; rfl) (hx.accounts.append (.cons (by rw [hp]; rfl) ((hts.mono fun w hw => ?_).append
        (.cons (by rw [hq]; rfl) (.cons (by rw [ho]; rfl) ((ihbody.mono fun w hw => ?_).append
          (.cons (by rw [hc]; rfl) (ih.mono fun w hw => ?_))))))))
      all_goals
        simp only [List.mem_append] at hw ⊢
        grind

/-! ### Reading -/

namespace Outline

variable {s : Source} {ts : List Token} {e : Token} {kept defaults lost : List Write}

/-- A source that is a program can be read, and its writes are those that are kept. -/
theorem read_program (hlexes : s.Lexes (ts ++ [e])) (he : e.kind = .endOfFile)
    (h : Program false ts kept defaults lost) :
    ∃ o, Outline.read s = .ok o ∧ o.writes = kept := by
  have hready : Track.Ready false {} :=
    { pendingUpdate := rfl
      ref := rfl
      update := rfl
      prev := by decide
      closes := rfl
      holds := rfl
      ternaries := rfl
      inFunction := rfl
      stmtStart := rfl
      arrow := by decide }
  obtain ⟨v, hv, hholds⟩ := h.passes {} e hready (by simp) hlexes.chain
  obtain ⟨o, ho, hwrites⟩ := read_of_run hlexes he ((Track.run_eq_enter rfl rfl ts).trans hv) hholds.below
  refine ⟨o, ho, ?_⟩
  rw [hwrites, Track.finish, hholds.closeWhile (by rw [he]; rfl) rfl (by simp) (by simp)]
  rfl

/-- Every assignment of a program is recorded, but for the defaults of parameters and for what stands in the
parenthesis before a brace: the rest of the defaults, and what a call assigns that a block follows on the next
line. -/
theorem assignments_recorded (hlexes : s.Lexes (ts ++ [e])) (he : e.kind = .endOfFile)
    (h : Program false ts kept defaults lost) :
    ∃ o, Outline.read s = .ok o ∧ o.writes = kept ∧
      ∀ x ∈ assigned ts, ∃ w ∈ o.writes ++ defaults ++ lost, w.targets = [x.binding] ∧ w.start = x.start := by
  obtain ⟨o, ho, rfl⟩ := read_program hlexes he h
  exact ⟨o, ho, rfl, h.accounts.2⟩

/-- A call with an assignment among its arguments, and a block on the next line. -/
def callThenBlock : Source := { contents := "f(x = 1)\n\x7b\ny = 2\n\x7d\n" }

/-- The tokens of the call, of the block, and the end. -/
def callTokens : List Token :=
  [⟨.identifier, 0, 1, 0, true, [102], [], [102]⟩, ⟨.openParen, 1, 2, 1, false, [40], [], []⟩,
    ⟨.identifier, 2, 3, 2, false, [120], [], [120]⟩, ⟨.assign, 4, 5, 3, false, [61], [], []⟩,
    ⟨.number, 6, 7, 5, false, [49], [], []⟩, ⟨.closeParen, 7, 8, 7, false, [41], [], []⟩]

def blockTokens : List Token :=
  [⟨.openBrace, 9, 10, 8, true, [123], [], []⟩, ⟨.identifier, 11, 12, 10, true, [121], [], [121]⟩,
    ⟨.assign, 13, 14, 12, false, [61], [], []⟩, ⟨.number, 15, 16, 14, false, [50], [], []⟩,
    ⟨.closeBrace, 17, 18, 16, true, [125], [], []⟩]

def endOfBlock : Token := ⟨.endOfFile, 19, 19, 18, true, [], [], []⟩

/-- The assignment in the block is recorded, the one before it is lost. -/
theorem assignments_recorded_block :
    callThenBlock.Lexes ((callTokens ++ blockTokens) ++ [endOfBlock]) ∧ endOfBlock.kind = .endOfFile ∧
      Program false (callTokens ++ blockTokens) [⟨[⟨[121], 11⟩], 11, 16, true⟩] [] [⟨[⟨[120], 2⟩], 2, 7, false⟩] ∧
      ∃ o, Outline.read callThenBlock = .ok o ∧ o.writes = [⟨[⟨[121], 11⟩], 11, 16, true⟩] ∧
        ∀ x ∈ assigned (callTokens ++ blockTokens), ∃ w ∈ o.writes ++ [] ++ [⟨[⟨[120], 2⟩], 2, 7, false⟩],
          w.targets = [x.binding] ∧ w.start = x.start := by
  have hlexes : callThenBlock.Lexes ((callTokens ++ blockTokens) ++ [endOfBlock]) :=
    Source.lexes_of_tokens? (by decide +kernel)
  have hcall : Phrase false .callee callTokens [⟨[⟨[120], 2⟩], 2, 7, false⟩] (some 1) :=
    .call (.name ⟨rfl, by decide⟩) rfl rfl
      ((Phrase.assign ⟨rfl, by decide⟩ rfl ((Phrase.number rfl).loosen (by decide))).loosen (by decide))
  have hassign : Phrase true .assignment (blockTokens.tail.take 3) [⟨[⟨[121], 11⟩], 11, 16, true⟩] none :=
    .assign ⟨rfl, by decide⟩ rfl ((Phrase.number rfl).loosen (by decide))
  have hprogram : Program false (callTokens ++ blockTokens) [⟨[⟨[121], 11⟩], 11, 16, true⟩] []
      [⟨[⟨[120], 2⟩], 2, 7, false⟩] :=
    .lineBlock (hcall.loosen (by decide)) rfl rfl (.last (hassign.loosen (by decide))) rfl .nil
  exact ⟨hlexes, rfl, hprogram, assignments_recorded hlexes rfl hprogram⟩

/-- An assignment in a call that a block follows is not recorded, although it is no default of a parameter. -/
theorem call_before_block_forgets :
    let s : Source := { contents := "f(x = 1)\n\x7b\n\x7d\n" }
    (s.tokens?.map fun ts => (assigned ts).map Token.binding) = some [⟨[120], 2⟩] ∧
      (Outline.read s).toOption.map (·.writes) = some [] := by
  decide +kernel

end Outline

end ModuleSystem
