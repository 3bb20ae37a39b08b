import Mathlib.Data.List.Chain
import ModuleSystem.Proofs.Writes.Phrases

/-!
# The track passes expressions

* `IsBracket.run`: what stands in brackets leaves its assignments behind, and nothing is open.
* `Passes.name`, `Passes.group`, …: one lemma for each form of an expression.
* `Phrase.passes`: the track passes every expression, and holds its assignments.
-/

namespace ModuleSystem

open Token (stopOf)
open Scanner (continuesMember startsStatement endWrites)

namespace Scanner

theorem endWrites_append (stop : Nat) (ws : List Write) (cs ds : List PendingClose) :
    endWrites stop ws (cs ++ ds) = endWrites stop (endWrites stop ws cs) ds := List.foldl_append

/-- Ending one assignment sets the end of its write. -/
theorem endWrites_singleton (stop depth ternaries : Nat) (ws vs : List Write) (w : Write) :
    endWrites stop (ws ++ w :: vs) [⟨depth, ternaries, ws.length⟩] = ws ++ { w with stop } :: vs := by
  change (ws ++ w :: vs).modify ws.length _ = _
  induction ws with
  | nil => rfl
  | cons v ws ih => exact congrArg (v :: ·) ih

end Scanner

namespace Track

variable {u v w : Track} {t o c x : Token} {ts us : List Token} {ws vs : List Write} {stop : Nat}
  {kind : FrameKind} {part : Part} {n : Option Nat}

/-! ### Single tokens -/

/-- A variable where an expression may start. -/
theorem handle_variable (hx : x.IsVariable) (hprev : v.prev ≠ .dot ∧ v.prev ≠ .questionDot) :
    v.handle x = some (v.readVariable x) := by
  simp [handle, hx.kind, hprev.1, hprev.2, hx.name]

/-- A token of a kind that no name has is handled by its kind alone. -/
theorem handle_number (ht : t.kind = .number) (hprev : v.prev ≠ .dot ∧ v.prev ≠ .questionDot) :
    v.handle t = some (v.next t false) := by
  simp [handle, ht, hprev.1, hprev.2]

/-- An operator leaves an expression to come. -/
theorem handle_plus (ht : t.kind = .plus) (hprev : v.prev ≠ .dot ∧ v.prev ≠ .questionDot) :
    v.handle t = some (v.next t true) := by
  simp [handle, ht, hprev.1, hprev.2]

/-- A dot is no operand, and what follows is a member. -/
theorem handle_dot (ht : t.kind = .dot) (hprev : v.prev ≠ .dot ∧ v.prev ≠ .questionDot) :
    v.handle t = some (v.next t false) := by
  simp [handle, ht, hprev.1, hprev.2]

/-- A name after a point is the name of a member. -/
theorem handle_member (ht : t.kind.isName = true) (hprev : v.prev = .dot) :
    v.handle t = some (v.next t false) := by
  simp [handle, ht, hprev]

/-- A question mark opens a conditional. -/
theorem handle_question (ht : t.kind = .question) (hprev : v.prev ≠ .dot ∧ v.prev ≠ .questionDot) :
    v.handle t =
      some ({ v with top := { v.top with ternaries := v.top.ternaries + 1 } }.next t true) := by
  simp [handle, ht, hprev.1, hprev.2]

/-- A colon goes on with the conditional. -/
theorem handle_colon (ht : t.kind = .colon) (hprev : v.prev ≠ .dot ∧ v.prev ≠ .questionDot) :
    v.handle t = v.colon t := by
  simp [handle, ht, hprev.1, hprev.2]

/-- A comma ends the assignments before it. -/
theorem handle_comma (ht : t.kind = .comma) (hprev : v.prev ≠ .dot ∧ v.prev ≠ .questionDot) :
    v.handle t = some ((v.closeAll t.prevStop).next t true) := by
  simp [handle, ht, hprev.1, hprev.2]

/-- A semicolon ends the statement. -/
theorem handle_semicolon (ht : t.kind = .semicolon) (hprev : v.prev ≠ .dot ∧ v.prev ≠ .questionDot) :
    v.handle t = some { (v.endStatement t.prevStop).next t true with
      stmtStart := v.top.kind.holdsStatements } := by
  simp [handle, ht, hprev.1, hprev.2]

/-- An increment is read with its variable, on either side. -/
theorem handle_update (ht : t.kind = .plusPlus ∨ t.kind = .minusMinus)
    (hprev : v.prev ≠ .dot ∧ v.prev ≠ .questionDot) : v.handle t = some (v.readUpdate t) := by
  obtain ht | ht := ht <;> simp [handle, ht, hprev.1, hprev.2]

/-- An assignment starts a write at its target. -/
theorem handle_assign (ht : t.kind.isAssign = true) (hprev : v.prev ≠ .dot ∧ v.prev ≠ .questionDot) :
    v.handle t = v.ref.map fun b => (v.startWrite b).next t true := by
  unfold handle
  rw [if_neg hprev.2]
  generalize t.kind = k at ht
  cases k <;> first | exact absurd ht (by decide) | simp [hprev.1, TokenKind.isAssign, TokenKind.ctorIdx]

/-- A token on the line of the one before it starts no statement. -/
theorem step_eq_of_line (h : t.newlineBefore = false) : v.step t = (v.settleUpdate t).handle t := by
  rw [step, settle, settleLine, startsLine, show (v.settleUpdate t).exprAllowed = v.exprAllowed from rfl, h,
    Bool.false_and, Bool.false_and, Bool.false_and, if_neg Bool.false_ne_true]

/-! ### Where expressions begin, end and go on -/

theorem Begins.next (hpending : v.pendingUpdate = none) (ht : t.kind ≠ .dot ∧ t.kind ≠ .questionDot) (b : Bool) :
    (v.next t b).Begins := ⟨hpending, rfl, rfl, ht⟩

theorem Surrounds.le (h : v.Surrounds part) : ∀ d ∈ v.closes, d.depth ≤ v.depth :=
  fun d hd => (h d hd).elim Nat.le_of_lt fun h => h.2.1.le

/-- A part of an expression has fewer assignments around it that matter. -/
theorem Surrounds.imp {part' : Part} (h : v.Surrounds part') (hpart : part = .elements → part' = .elements) :
    v.Surrounds part :=
  fun d hd => (h d hd).imp_right fun hd => ⟨fun heq => hd.1 (hpart heq), hd.2⟩

theorem Surrounds.lt (h : v.Surrounds .elements) : ∀ d ∈ v.closes, d.depth < v.depth :=
  fun d hd => (h d hd).elim id fun h => absurd rfl h.1

theorem Surrounds.of_le (h : ∀ d ∈ v.closes, d.depth ≤ v.depth) : (v.opened kind o).Surrounds part :=
  fun d hd => .inl (Nat.lt_succ_of_le (h d hd))

theorem Keeps.refl (v : Track) : Keeps v v [] := ⟨rfl, rfl, rfl, rfl, (List.append_nil _).symm⟩

/-- What is kept has the same assignments around it. -/
theorem Keeps.surrounds (h : Keeps u v ws) (hu : u.Surrounds part) : v.Surrounds part := by
  intro d hd
  rw [h.closes] at hd
  rw [h.depth, h.top]
  exact hu d hd

/-- Behind an operator an expression goes on as it began. -/
theorem Keeps.resumes (h : Keeps u v ws) (hpending : v.pendingUpdate = none)
    (ht : t.kind ≠ .dot ∧ t.kind ≠ .questionDot) : Resumes u (v.next t true) ws :=
  { Begins.next hpending ht true with
    functionDepth := h.functionDepth
    top := h.top
    below := h.below
    closes := h.closes
    writes := h.writes
    exprAllowed := rfl }

/-- A sum and what is tighter has no open assignments when the next token is settled. -/
theorem Done.settle (h : Done part u v t.prevStop ws n) (hrank : Part.sum.rank ≤ part.rank)
    (hmember : continuesMember t.kind = false) : Keeps u (v.settleUpdate t) ws where
  functionDepth := h.functionDepth
  top := h.top
  below := h.below
  closes := (h.tight hrank).1
  writes := by rw [settleUpdate, hmember, if_neg Bool.false_ne_true, (h.tight hrank).2]

/-- A callee that is done leaves no assignment open. -/
theorem Done.keeps (h : Done .callee u v stop ws n) : Keeps u v ws where
  functionDepth := h.functionDepth
  top := h.top
  below := h.below
  closes := (h.tight (by decide)).1
  writes := by
    have hwrites := (h.tight (by decide)).2
    rwa [writesAt, h.callee rfl, Option.toList_none, List.map_nil, List.append_nil] at hwrites

/-- An expression is passed when nothing is pending and all of its assignments have ended. -/
theorem Keeps.done (h : Keeps u v ws) (hpending : v.pendingUpdate = none) (hexpr : v.exprAllowed = false)
    (hupdate : v.update = none) (hprev : v.prev ≠ .dot ∧ v.prev ≠ .questionDot) (harrow : v.prev ≠ .equalsGreaterThan)
    (hlast : match n with
      | some n => v.prev = .closeParen ∧ v.lastClosed.kind = .paren ∧
          v.lastClosed.writeCount + n = u.writes.length + ws.length
      | none => v.prev ≠ .closeParen) : Done part u v stop ws n := by
  have hwrites : v.writesAt stop = u.writes ++ ws := by
    rw [writesAt, hpending, Option.toList_none, List.map_nil, List.append_nil, h.writes]
  exact
    { functionDepth := h.functionDepth
      top := h.top
      below := h.below
      prev := hprev
      writes := ⟨[], h.closes, by simp, hwrites⟩
      exprAllowed := hexpr
      update := hupdate
      arrow := harrow
      tight := fun _ => ⟨h.closes, hwrites⟩
      callee := fun _ => hpending
      last := hlast }

/-! ### Brackets -/

/-- The state after a bracket in which the assignments `ws` were made. -/
def enclosed (v : Track) (kind : FrameKind) (c : Token) (ws : List Write) : Track :=
  { v.next c false with
    writes := v.writes ++ ws, pendingUpdate := none, lastClosed := { kind, writeCount := v.writes.length } }

/-- The assignments inside of a parenthesis are counted. -/
def countIn (kind : FrameKind) (ws : List Write) : Option Nat :=
  if kind = .paren then some ws.length else none

theorem IsBracket.of_paren (ho : o.kind = .openParen) (hc : c.kind = .closeParen) :
    IsBracket o.kind .paren c.kind := by
  rw [ho, hc]
  exact .paren

theorem IsBracket.of_bracket (ho : o.kind = .openBracket) (hc : c.kind = .closeBracket) :
    IsBracket o.kind .bracket c.kind := by
  rw [ho, hc]
  exact .bracket

/-- A bracket is no dot. -/
theorem IsBracket.kind_ne (h : IsBracket o.kind kind c.kind) :
    (o.kind ≠ .dot ∧ o.kind ≠ .questionDot) ∧ c.kind ≠ .dot ∧ c.kind ≠ .questionDot := by
  generalize o.kind = k at h
  generalize c.kind = k' at h
  cases h <;> decide

theorem IsBracket.ne_arrow (h : IsBracket o.kind kind c.kind) : c.kind ≠ .equalsGreaterThan := by
  generalize o.kind = k at h
  generalize c.kind = k' at h
  cases h <;> decide

theorem IsBracket.begins (h : IsBracket o.kind kind c.kind) (hpending : v.pendingUpdate = none) :
    (v.opened kind o).Begins := ⟨hpending, rfl, rfl, h.kind_ne.1⟩

/-- A bracket starts no statement, and none of its ends continues a member. -/
theorem IsBracket.starts (h : IsBracket o.kind kind c.kind) :
    startsStatement o.kind = false ∧ startsStatement c.kind = false ∧ continuesMember c.kind = false := by
  generalize o.kind = k at h
  generalize c.kind = k' at h
  cases h <;> decide

/-- A closing bracket closes its frame. -/
theorem IsBracket.handle_close (h : IsBracket o.kind kind c.kind) (hprev : v.prev ≠ .dot ∧ v.prev ≠ .questionDot)
    (htop : v.top.kind = kind) : v.handle c = (v.close c).map (·.next c false) := by
  generalize o.kind = k at h
  unfold handle
  generalize hc : c.kind = k' at h
  cases h <;> simp [hprev.1, hprev.2, htop]

/-- A closed bracket leaves its assignments behind, and everything else is as it was before it. -/
theorem Holds.close (hw : Holds (v.push kind) w c.prevStop ws) (hmember : continuesMember c.kind = false)
    (houter : ∀ d ∈ v.closes, d.depth ≤ v.depth) :
    (w.settleUpdate c).close c =
      some { w with
        pendingUpdate := none, closes := v.closes, writes := v.writes ++ ws, top := v.top, below := v.below
        functionDepth := v.functionDepth, lastClosed := { kind, writeCount := v.writes.length } } := by
  have hclosed := hw.closeAll hmember rfl fun d hd => Nat.lt_succ_of_le (houter d hd)
  have htop : (w.settleUpdate c).top = { kind, writeCount := v.writes.length } := hw.top
  have hbelow : (w.settleUpdate c).below = v.top :: v.below := hw.below
  have hdepth : (if kind = .functionBody then w.functionDepth - 1 else w.functionDepth) = v.functionDepth := by
    have hpush : (v.push kind).functionDepth =
      if kind = .functionBody then v.functionDepth + 1 else v.functionDepth := rfl
    rw [hw.functionDepth, hpush]
    split <;> rfl
  unfold Track.close
  rw [hbelow]
  dsimp only
  rw [hclosed, htop, show (w.settleUpdate c).functionDepth = w.functionDepth from rfl, hdepth]
  rfl

/-- What stands in brackets leaves its assignments behind. -/
theorem IsBracket.run (h : IsBracket o.kind kind c.kind) (hpending : v.pendingUpdate = none)
    (hprev : v.prev ≠ .dot ∧ v.prev ≠ .questionDot) (houter : ∀ d ∈ v.closes, d.depth ≤ v.depth)
    (hts : (v.opened kind o).enter ts = some w) (hw : Holds (v.opened kind o) w c.prevStop ws) :
    (v.handle o).bind (·.run (ts ++ [c])) = some (v.enclosed kind c ws) := by
  obtain ⟨-, hstarts, hmember⟩ := h.starts
  have hpushed : Holds (v.push kind) w c.prevStop ws := ⟨hw.functionDepth, hw.top, hw.below, hw.prev, hw.writes⟩
  have hclose := h.handle_close (v := w.settleUpdate c) hw.prev (congrArg Level.kind hw.top)
  rw [hpushed.close hmember houter] at hclose
  rw [h.handle_open hprev.2, Option.bind_some, run_append, run_eq_enter (v := v.opened kind o) hpending rfl, hts,
    Option.bind_some, run_cons, step_eq hstarts, hclose, Option.map_some, Option.bind_some, run_nil]
  rfl

/-- A bracket may enclose nothing. -/
theorem IsBracket.run_nothing (h : IsBracket o.kind kind c.kind) (hpending : v.pendingUpdate = none)
    (hprev : v.prev ≠ .dot ∧ v.prev ≠ .questionDot) (houter : ∀ d ∈ v.closes, d.depth ≤ v.depth) :
    (v.handle o).bind (·.run [c]) = some (v.enclosed kind c []) := by
  have hempty : (v.opened kind o).enter [] = some (v.opened kind o) := rfl
  exact h.run hpending hprev houter hempty ((h.begins hpending).holds _)

/-- A bracket goes on with what came before it. -/
theorem IsBracket.done (h : IsBracket o.kind kind c.kind) (hv : Keeps u v ws) :
    Done .callee u (v.enclosed kind c vs) stop (ws ++ vs) (countIn kind vs) := by
  have henclosed : Keeps u (v.enclosed kind c vs) (ws ++ vs) :=
    { hv with writes := by rw [← List.append_assoc, ← hv.writes]; rfl }
  refine henclosed.done rfl rfl rfl h.kind_ne.2 h.ne_arrow ?_
  generalize o.kind = k at h
  generalize hc : c.kind = k' at h
  cases h with
  | paren => simp [countIn, enclosed, next, hc, hv.writes, Nat.add_assoc]
  | bracket => simp [countIn, enclosed, next, hc]

/-! ### The forms of expressions -/

/-- Tokens tell where the ones before them ended. -/
abbrev Chained (ts : List Token) : Prop := ts.IsChain fun t t' => t'.prevStop = t.stop

/-- Tokens that are chained are chained on both sides of one of them. -/
theorem Chained.split (h : Chained (ts ++ o :: us)) (hts : ts ≠ []) :
    Chained ts ∧ o.prevStop = stopOf ts ∧ Chained us := by
  obtain ⟨hleft, hright, hlink⟩ := List.isChain_append.1 h
  have hlast := List.getLast?_eq_some_getLast hts
  refine ⟨hleft, ?_, hright.tail⟩
  rw [stopOf, hlast]
  exact hlink _ hlast o rfl

/-- The track passes the tokens as an expression. -/
def Passes (inFunction : Bool) (part : Part) (ts : List Token) (ws : List Write) (n : Option Nat) : Prop :=
  ∀ u : Track, u.Begins → u.Surrounds part → decide (0 < u.functionDepth) = inFunction → Chained ts →
    ∃ v, u.enter ts = some v ∧ Done part u v (stopOf ts) ws n

variable {b : Bool} {m l : Option Nat} {xs : List Token} {ys : List Write}

/-- What passes as a tighter part of an expression passes as a looser one. -/
theorem Passes.loosen {part' : Part} (h : Passes b part ts ws n) (hrank : part'.rank ≤ part.rank) :
    Passes b part' ts ws n := by
  intro u hu hs hb hts
  have hpart : part = .elements → part' = .elements := by
    rintro rfl
    cases part' <;> first | rfl | exact absurd hrank (by decide)
  obtain ⟨v, hv, hdone⟩ := h u hu (hs.imp hpart) hb hts
  exact ⟨v, hv, hdone.loosen hrank⟩

/-- A variable passes without a write. -/
theorem Passes.name (hx : x.IsVariable) : Passes b .callee [x] [] none := by
  intro u hu _ _ _
  have hkeeps : Keeps u (u.readVariable x) [] := { Keeps.refl u with }
  refine ⟨u.readVariable x, by rw [enter, handle_variable hx hu.prev]; rfl, hkeeps.done ?_ rfl rfl ?_ ?_ ?_⟩
  · simp [readVariable, hu.update]
  · simp [readVariable, next, hx.kind]
  · simp [readVariable, next, hx.kind]
  · simp [readVariable, next, hx.kind]

/-- A number passes without a write. -/
theorem Passes.number (ht : t.kind = .number) : Passes b .operand [t] [] none := by
  intro u hu _ _ _
  have hkeeps : Keeps u (u.next t false) [] := { Keeps.refl u with }
  refine ⟨u.next t false, by rw [enter, handle_number ht hu.prev]; rfl,
    hkeeps.done hu.pendingUpdate rfl rfl ?_ ?_ ?_⟩
  · simp [next, ht]
  · simp [next, ht]
  · simp [next, ht]

/-- The track passes a bracket after what came before it. -/
theorem Passes.bracket (hk : IsBracket o.kind kind c.kind) (h : Passes b .elements ts ws n)
    (hpending : v.pendingUpdate = none)
    (hprev : v.prev ≠ .dot ∧ v.prev ≠ .questionDot) (houter : ∀ d ∈ v.closes, d.depth ≤ v.depth)
    (hb : decide (0 < v.functionDepth) = b) (hne : ts ≠ []) (hts : Chained (ts ++ [c])) :
    (v.handle o).bind (·.run (ts ++ [c])) = some (v.enclosed kind c ws) := by
  obtain ⟨hts, hstop, -⟩ := hts.split hne
  have hdepth : (v.opened kind o).functionDepth = v.functionDepth := by
    generalize o.kind = k at hk
    generalize c.kind = k' at hk
    cases hk <;> rfl
  obtain ⟨w, hw, hdone⟩ := h (v.opened kind o) (hk.begins hpending) (Surrounds.of_le houter)
    (hdepth ▸ hb) hts
  exact hk.run hpending hprev houter hw (hstop ▸ hdone.toHolds)

/-- A parenthesis around an expression, or an array. -/
theorem Passes.enclose (hk : IsBracket o.kind kind c.kind) (h : Passes b .elements ts ws n) (hne : ts ≠ []) :
    Passes b .callee (o :: (ts ++ [c])) ws (countIn kind ws) := by
  intro u hu hs hb hts
  exact ⟨_, h.bracket hk hu.pendingUpdate hu.prev hs.le hb hne hts.tail, hk.done (Keeps.refl u)⟩

/-- An empty bracket passes without a write. -/
theorem Passes.encloseNothing (hk : IsBracket o.kind kind c.kind) : Passes b .callee [o, c] [] (countIn kind []) := by
  intro u hu hs _ _
  exact ⟨u.enclosed kind c [], hk.run_nothing hu.pendingUpdate hu.prev hs.le, hk.done (Keeps.refl u)⟩

/-- A call with arguments, or the member under an index. -/
theorem Passes.apply (hf : Passes b .callee ts ws m) (hk : IsBracket o.kind kind c.kind)
    (h : Passes b .elements us vs n) (hne : ts ≠ []) (hne' : us ≠ []) :
    Passes b .callee (ts ++ o :: (us ++ [c])) (ws ++ vs) (countIn kind vs) := by
  intro u hu hs hb hts
  obtain ⟨hts, -, hus⟩ := hts.split hne
  obtain ⟨v, hv, hdone⟩ := hf u hu hs hb hts
  have hpending := hdone.callee rfl
  refine ⟨v.enclosed kind c vs, ?_, hk.done hdone.keeps⟩
  rw [enter_append hne, hv, Option.bind_some, run_cons, step_eq hk.starts.1, settleUpdate_eq hpending]
  exact h.bracket hk hpending hdone.prev (hdone.keeps.surrounds hs).le (hdone.functionDepth ▸ hb) hne' hus

/-- A call without arguments has the writes of its callee. -/
theorem Passes.applyNothing (hf : Passes b .callee ts ws m) (hk : IsBracket o.kind kind c.kind) (hne : ts ≠ []) :
    Passes b .callee (ts ++ [o, c]) ws (countIn kind []) := by
  intro u hu hs hb hts
  obtain ⟨hts, -, -⟩ := hts.split hne
  obtain ⟨v, hv, hdone⟩ := hf u hu hs hb hts
  have hpending := hdone.callee rfl
  refine ⟨v.enclosed kind c [], ?_, ?_⟩
  · rw [enter_append hne, hv, Option.bind_some, run_cons, step_eq hk.starts.1, settleUpdate_eq hpending]
    exact hk.run_nothing hpending hdone.prev (hdone.keeps.surrounds hs).le
  · rw [← List.append_nil ws]
    exact hk.done hdone.keeps

/-- A member has the writes of its object. -/
theorem Passes.member (hf : Passes b .callee ts ws m) (ho : o.kind = .dot) (hx : x.kind.isName = true)
    (hline : x.newlineBefore = false) (hne : ts ≠ []) : Passes b .callee (ts ++ [o, x]) ws none := by
  intro u hu hs hb hts
  obtain ⟨hts, -, -⟩ := hts.split hne
  obtain ⟨v, hv, hdone⟩ := hf u hu hs hb hts
  have hpending := hdone.callee rfl
  have hdot : v.step o = some (v.next o false) := by
    rw [step_eq (by rw [ho]; rfl), settleUpdate_eq hpending, handle_dot ho hdone.prev]
  have hmember : (v.next o false).step x = some ((v.next o false).next x false) := by
    rw [step_eq_of_line hline, settleUpdate_eq (v := v.next o false) hpending, handle_member hx ho]
  have hname : ∀ k, k.isName = true → k ≠ TokenKind.dot ∧ k ≠ .questionDot ∧ k ≠ .equalsGreaterThan ∧
      k ≠ .closeParen := by
    rintro k hk
    refine ⟨?_, ?_, ?_, ?_⟩ <;> rintro rfl <;> exact absurd hk (by decide)
  have hkeeps : Keeps u ((v.next o false).next x false) ws := { hdone.keeps with }
  obtain ⟨hdot', hquestion, harrow, hparen⟩ := hname _ hx
  refine ⟨_, ?_, hkeeps.done hpending rfl rfl ⟨hdot', hquestion⟩ harrow hparen⟩
  rw [enter_append hne, hv, Option.bind_some, run_cons, hdot, Option.bind_some, run_cons, hmember, Option.bind_some,
    run_nil]

/-- A variable with an increment or decrement after it. -/
theorem Passes.after (hx : x.IsVariable) (ht : t.kind = .plusPlus ∨ t.kind = .minusMinus)
    (hline : t.newlineBefore = false) :
    Passes b .operand [x, t] [⟨[x.binding], x.start, t.stop, b⟩] none := by
  intro u hu _ hb _
  have hpending : (u.readVariable x).pendingUpdate = none := by simp [readVariable, hu.update]
  have hprev : (u.readVariable x).prev ≠ .dot ∧ (u.readVariable x).prev ≠ .questionDot := by
    simp [readVariable, next, hx.kind]
  let v : Track := ((u.readVariable x).addWrite x.binding x.start t.stop).next t false
  have hread : (u.readVariable x).readUpdate t = v := by
    unfold readUpdate
    rw [show (u.readVariable x).ref = some x.binding from rfl, hline]
    rfl
  have hkeeps : Keeps u v [⟨[x.binding], x.start, t.stop, b⟩] :=
    { Keeps.refl u with writes := by rw [← hb]; rfl }
  refine ⟨v, ?_, hkeeps.done hpending rfl rfl ?_ ?_ ?_⟩
  · rw [enter, handle_variable hx hu.prev, Option.bind_some, run_cons, step_eq_of_line hline,
      settleUpdate_eq hpending, handle_update ht hprev, hread, Option.bind_some, run_nil]
  · obtain ht | ht := ht <;> simp [v, next, ht]
  · obtain ht | ht := ht <;> simp [v, next, ht]
  · obtain ht | ht := ht <;> simp [v, next, ht]

/-- A variable with an increment or decrement before it is updated when the next token is settled. -/
theorem Passes.before (ht : t.kind = .plusPlus ∨ t.kind = .minusMinus) (hx : x.IsVariable) :
    Passes b .operand [t, x] [⟨[x.binding], t.start, x.stop, b⟩] none := by
  intro u hu _ hb _
  let v : Track := { u.next t true with update := some t.start }
  have hread : u.readUpdate t = v := by
    unfold readUpdate
    rw [hu.ref]
  have hprev : v.prev ≠ .dot ∧ v.prev ≠ .questionDot := by
    obtain ht | ht := ht <;> simp [v, next, ht]
  have hwrites : (v.readVariable x).writesAt x.stop =
      u.writes ++ [⟨[x.binding], t.start, x.stop, b⟩] := by
    rw [← hb]
    rfl
  refine ⟨v.readVariable x, ?_, ?_⟩
  · rw [enter, handle_update ht hu.prev, hread, Option.bind_some, run_cons, step,
      settle_eq (v := v) hu.pendingUpdate rfl,
      handle_variable hx hprev, Option.bind_some, run_nil]
  · exact
      { functionDepth := rfl
        top := rfl
        below := rfl
        prev := by simp [readVariable, next, hx.kind]
        writes := ⟨[], rfl, by simp, hwrites⟩
        exprAllowed := rfl
        update := rfl
        arrow := by simp [readVariable, next, hx.kind]
        tight := fun _ => ⟨rfl, hwrites⟩
        callee := fun heq => by cases heq
        last := by simp [readVariable, next, hx.kind] }

/-- The track passes an expression with which another one goes on. -/
theorem Passes.resume {part' : Part} (hr : Passes b part us vs n) (hu : u.Surrounds part') (hv : Resumes u v ws)
    (hb : decide (0 < u.functionDepth) = b) (hus : Chained us) (hpart : part = .elements → part' = .elements)
    (hsum : Part.sum.rank ≤ part'.rank → Part.sum.rank ≤ part.rank) (hcallee : part' ≠ .callee) :
    ∃ w, v.run us = some w ∧ Done part' u w (stopOf us) (ws ++ vs) n := by
  obtain ⟨w, hw, hdone⟩ := hr v hv.toBegins ((hv.toKeeps.surrounds hu).imp hpart) (hv.functionDepth ▸ hb) hus
  exact ⟨w, by rw [run_eq_enter hv.pendingUpdate hv.exprAllowed, hw], hv.done hdone hsum hcallee⟩

/-- An operator with a looser expression on its left and a tighter one on its right. -/
theorem Passes.operator {part' : Part} (hl : Passes b part ts ws m) (hr : Passes b part' us vs n)
    (hstep : ∀ u v, u.Surrounds part → Done part u v o.prevStop ws m → ∃ w, v.step o = some w ∧ Resumes u w ws)
    (hpart : part' ≠ .elements) (hsum : Part.sum.rank ≤ part.rank → Part.sum.rank ≤ part'.rank)
    (hcallee : part ≠ .callee) (hne : ts ≠ []) (hne' : us ≠ []) :
    Passes b part (ts ++ o :: us) (ws ++ vs) n := by
  intro u hu hs hb hts
  obtain ⟨hts, hstop, hus⟩ := hts.split hne
  obtain ⟨v, hv, hdone⟩ := hl u hu hs hb hts
  obtain ⟨w, hw, hresumes⟩ := hstep u v hs (hstop ▸ hdone)
  obtain ⟨w', hw', hdone'⟩ := hr.resume hs hresumes hb hus (absurd · hpart) hsum hcallee
  refine ⟨w', ?_, ?_⟩
  · rw [enter_append hne, hv, Option.bind_some, run_cons, hw, Option.bind_some, hw']
  · rwa [Token.stopOf_append ts (List.cons_ne_nil o us), Token.stopOf_cons o hne']

/-- A sum has the writes of both sides. -/
theorem Passes.add (hl : Passes b .sum ts ws m) (ho : o.kind = .plus) (hr : Passes b .operand us vs n)
    (hne : ts ≠ []) (hne' : us ≠ []) : Passes b .sum (ts ++ o :: us) (ws ++ vs) n := by
  refine hl.operator hr (fun u v _ hdone => ⟨(v.settleUpdate o).next o true, ?_, ?_⟩) nofun (by decide) nofun hne hne'
  · rw [step_eq (by rw [ho]; rfl), handle_plus (v := v.settleUpdate o) ho hdone.prev]
  · exact (hdone.settle le_rfl (by rw [ho]; rfl)).resumes rfl (by simp [ho])

/-- A list has the writes of its elements. -/
theorem Passes.comma (hl : Passes b .elements ts ws m) (ho : o.kind = .comma) (hr : Passes b .assignment us vs n)
    (hne : ts ≠ []) (hne' : us ≠ []) : Passes b .elements (ts ++ o :: us) (ws ++ vs) n := by
  refine hl.operator hr (fun u v hs hdone =>
    ⟨((v.settleUpdate o).closeAll o.prevStop).next o true, ?_, ?_⟩) nofun (by decide) nofun hne hne'
  · rw [step_eq (by rw [ho]; rfl), handle_comma (v := v.settleUpdate o) ho hdone.prev]
  · have hkeeps : Keeps u ((v.settleUpdate o).closeAll o.prevStop) ws := by
      rw [hdone.toHolds.closeAll (by rw [ho]; rfl) rfl hs.lt]
      exact ⟨hdone.functionDepth, hdone.top, hdone.below, rfl, rfl⟩
    exact hkeeps.resumes rfl (by simp [ho])

/-- The state after a question mark. -/
def asked (v : Track) (q : Token) : Track :=
  { v with top := { v.top with ternaries := v.top.ternaries + 1 } }.next q true

/-- A colon ends the assignments after its question mark, and no other ones. -/
theorem Done.colon {q : Token} (hv : Keeps u v ws) (hs : u.Surrounds part) (hc : c.kind = .colon)
    (hdone : Done .assignment (v.asked q) w c.prevStop vs n) :
    ∃ w', w.step c = some w' ∧ Resumes u w' (ws ++ vs) := by
  have htop : (w.settleUpdate c).top = { u.top with ternaries := u.top.ternaries + 1 } := by
    rw [← hv.top]
    exact hdone.top
  have hdepth : (w.settleUpdate c).depth = u.depth := by
    rw [← hv.depth, Track.depth, Track.depth, show (w.settleUpdate c).below = v.below from hdone.below]
  have hasked : (v.asked q).depth = u.depth ∧ (v.asked q).top.ternaries = u.top.ternaries + 1 :=
    ⟨hv.depth, congrArg (·.ternaries + 1) hv.top⟩
  have hopen : ∀ d : PendingClose, d.depth = (v.asked q).depth → d.ternaries = (v.asked q).top.ternaries →
      (d.depth = u.depth && u.top.ternaries + 1 ≤ d.ternaries : Bool) = true := by
    intro d hd hternaries
    simp [hd, hternaries, hasked]
  have houter : ∀ d ∈ (v.asked q).closes,
      (d.depth = u.depth && u.top.ternaries + 1 ≤ d.ternaries : Bool) = false := by
    intro d hd
    have hternaries : d.depth = u.depth → d.ternaries < u.top.ternaries + 1 := fun heq =>
      (hs d (hv.closes ▸ hd)).elim (fun hlt => absurd heq hlt.ne) fun h => Nat.lt_succ_of_le h.2.2
    simpa using hternaries
  have hclosed : (w.settleUpdate c).closeWhile c.prevStop (fun d => d.depth = (w.settleUpdate c).depth &&
      (w.settleUpdate c).top.ternaries ≤ d.ternaries) =
        { w with pendingUpdate := none, closes := u.closes, writes := u.writes ++ (ws ++ vs) } := by
    rw [hdepth, htop, hdone.toHolds.closeWhile (by rw [hc]; rfl) rfl hopen houter, ← List.append_assoc, ← hv.writes,
      ← hv.closes]
    rfl
  have hstep : w.step c = some (({ w with
      pendingUpdate := none, closes := u.closes, writes := u.writes ++ (ws ++ vs), top := u.top } : Track).next c true) := by
    have hcolon : (w.settleUpdate c).colon c = some ((({ (w.settleUpdate c).closeWhile c.prevStop
        (fun d => d.depth = (w.settleUpdate c).depth && (w.settleUpdate c).top.ternaries ≤ d.ternaries) with
        top := { (w.settleUpdate c).top with ternaries := (w.settleUpdate c).top.ternaries - 1 } } : Track)).next c true) :=
      if_neg (by simp [htop])
    rw [step_eq (by rw [hc]; rfl), handle_colon (v := w.settleUpdate c) hc hdone.prev, hcolon, hclosed, htop]
    rfl
  refine ⟨_, hstep, Keeps.resumes ?_ rfl (by simp [hc])⟩
  exact ⟨hdone.functionDepth.trans hv.functionDepth, rfl, hdone.below.trans hv.below, rfl, rfl⟩

/-- A conditional has the writes of all its parts. -/
theorem Passes.choose {q : Token} (ht : Passes b .sum ts ws l) (hq : q.kind = .question)
    (hthen : Passes b .assignment us vs m) (hc : c.kind = .colon) (helse : Passes b .assignment xs ys n)
    (hne : ts ≠ []) (hne' : us ≠ []) (hne'' : xs ≠ []) :
    Passes b .conditional (ts ++ q :: (us ++ c :: xs)) (ws ++ (vs ++ ys)) n := by
  intro u hu hs hb hts
  obtain ⟨hts, hstop, hrest⟩ := hts.split hne
  obtain ⟨hus, hstop', hxs⟩ := hrest.split hne'
  obtain ⟨v, hv, hdone⟩ := ht u hu (hs.imp nofun) hb hts
  have hkeeps := (hstop ▸ hdone).settle (t := q) le_rfl (by rw [hq]; rfl)
  have hstep : v.step q = some ((v.settleUpdate q).asked q) := by
    rw [step_eq (by rw [hq]; rfl), handle_question (v := v.settleUpdate q) hq hdone.prev]
    rfl
  have hsurrounds : ((v.settleUpdate q).asked q).Surrounds .assignment := by
    intro d hd
    refine (hkeeps.surrounds hs d hd).imp_right fun ⟨_, hdepth, hternaries⟩ => ⟨nofun, hdepth, ?_⟩
    exact hternaries.trans (Nat.le_succ _)
  have hbegins : ((v.settleUpdate q).asked q).Begins := ⟨rfl, rfl, rfl, by simp [asked, next, hq]⟩
  obtain ⟨w, hw, hdone'⟩ := hthen _ hbegins hsurrounds (hkeeps.functionDepth ▸ hb) hus
  obtain ⟨w', hw', hresumes⟩ := Done.colon hkeeps hs hc (hstop' ▸ hdone')
  obtain ⟨z, hz, hdone''⟩ := helse.resume hs hresumes hb hxs nofun (by decide) nofun
  refine ⟨z, ?_, ?_⟩
  · rw [enter_append hne, hv, Option.bind_some, run_cons, hstep, Option.bind_some, run_append,
      run_eq_enter (v := (v.settleUpdate q).asked q) rfl rfl, hw, Option.bind_some, run_cons, hw', Option.bind_some, hz]
  · rw [← List.append_assoc]
    rwa [Token.stopOf_append ts (List.cons_ne_nil q _), Token.stopOf_cons q (by simp),
      Token.stopOf_append us (List.cons_ne_nil c xs), Token.stopOf_cons c hne'']

/-- An assignment has its own write and those of its value. -/
theorem Passes.assign (hx : x.IsVariable) (ho : o.kind.isAssign = true) (h : Passes b .assignment ts ws n)
    (hne : ts ≠ []) :
    Passes b .assignment (x :: o :: ts) (⟨[x.binding], x.start, stopOf ts, b⟩ :: ws) n := by
  intro u hu hs hb hts
  have hpending : (u.readVariable x).pendingUpdate = none := by simp [readVariable, hu.update]
  have hprev : (u.readVariable x).prev ≠ .dot ∧ (u.readVariable x).prev ≠ .questionDot := by
    simp [readVariable, next, hx.kind]
  have hstarts : startsStatement o.kind = false := by
    generalize o.kind = k at ho
    cases k <;> first | rfl | exact absurd ho (by decide)
  have hkind : o.kind ≠ .dot ∧ o.kind ≠ .questionDot := by
    constructor <;> rintro heq <;> rw [heq] at ho <;> exact absurd ho (by decide)
  -- the write is opened at `x`, and waits for the end of its value
  let d : PendingClose := ⟨u.depth, u.top.ternaries, u.writes.length⟩
  let v : Track := ((u.readVariable x).startWrite x.binding).next o true
  have hstep : (u.readVariable x).step o = some v := by
    rw [step_eq hstarts, settleUpdate_eq hpending, handle_assign ho hprev]
    rfl
  have hsurrounds : v.Surrounds .assignment := by
    have hnot : Part.assignment ≠ .elements := by decide
    refine List.forall_mem_cons.2 ⟨.inr ⟨hnot, rfl, le_rfl⟩, fun c hc => ?_⟩
    exact (hs c hc).imp_right fun h => ⟨hnot, h.2⟩
  obtain ⟨w, hw, hdone⟩ := h v ⟨hpending, rfl, rfl, hkind⟩ hsurrounds hb hts.tail.tail
  obtain ⟨opens, hcloses, hopens, hwrites⟩ := hdone.writes
  refine ⟨w, ?_, ?_⟩
  · rw [enter, handle_variable hx hu.prev, Option.bind_some, run_cons, hstep, Option.bind_some,
      run_eq_enter (v := v) hpending rfl, hw]
  · rw [Token.stopOf_cons x (List.cons_ne_nil o ts), Token.stopOf_cons o hne]
    have hlength : v.writes.length = u.writes.length + 1 := by simp [v, startWrite, addWrite, readVariable, next]
    -- ending all that waits gives the write the end of its value
    have hwrites' : endWrites (stopOf ts) (w.writesAt (stopOf ts)) (opens ++ [d]) =
        u.writes ++ ⟨[x.binding], x.start, stopOf ts, b⟩ :: ws := by
      have hstarted : v.writes = u.writes ++ [⟨[x.binding], x.start, 0, b⟩] := by
        rw [← hb]
        rfl
      rw [Scanner.endWrites_append, hwrites, hstarted, List.append_assoc, List.singleton_append,
        Scanner.endWrites_singleton]
    exact
      { functionDepth := hdone.functionDepth
        top := hdone.top
        below := hdone.below
        prev := hdone.prev
        writes := ⟨opens ++ [d], by rw [hcloses, List.append_assoc]; rfl, by
          rintro c hc
          obtain hc | hc := List.mem_append.1 hc
          · exact hopens c hc
          · rw [List.mem_singleton.1 hc]
            exact ⟨rfl, rfl⟩, hwrites'⟩
        exprAllowed := hdone.exprAllowed
        update := hdone.update
        arrow := hdone.arrow
        tight := fun h => absurd h (by decide)
        callee := fun h => absurd h (by decide)
        last := by
          have hlast := hdone.last
          cases n with
          | none => exact hlast
          | some n =>
              refine ⟨hlast.1, hlast.2.1, ?_⟩
              rw [hlast.2.2, hlength, List.length_cons]
              omega }

end Track

/-- The track passes every expression, and holds its assignments. -/
theorem Phrase.passes {b : Bool} {part : Part} {ts : List Token} {ws : List Write} {n : Option Nat}
    (h : Phrase b part ts ws n) : Track.Passes b part ts ws n := by
  induction h with
  | loosen _ hrank ih => exact ih.loosen hrank
  | name hx => exact .name hx
  | group ho hc h ih => exact ih.enclose (.of_paren ho hc) h.ne_nil
  | call hf ho hc h ihf ih => exact ihf.apply (.of_paren ho hc) ih hf.ne_nil h.ne_nil
  | callEmpty hf ho hc ihf => exact ihf.applyNothing (.of_paren ho hc) hf.ne_nil
  | member hf hd hx hline ihf => exact ihf.member hd hx hline hf.ne_nil
  | index hf ho hc h ihf ih => exact ihf.apply (.of_bracket ho hc) ih hf.ne_nil h.ne_nil
  | number ht => exact .number ht
  | array ho hc h ih => exact (ih.enclose (.of_bracket ho hc) h.ne_nil).loosen (by decide)
  | arrayEmpty ho hc => exact (Track.Passes.encloseNothing (.of_bracket ho hc)).loosen (by decide)
  | after hx hu hline => exact .after hx hu hline
  | before hu hx => exact .before hu hx
  | add hl ho hr ihl ihr => exact ihl.add ho ihr hl.ne_nil hr.ne_nil
  | choose ht hq hthen hc helse iht ihthen ihelse =>
      exact iht.choose hq ihthen hc ihelse ht.ne_nil hthen.ne_nil helse.ne_nil
  | assign hx ho h ih => exact ih.assign hx ho h.ne_nil
  | comma hl ho hr ihl ihr => exact ihl.comma ho ihr hl.ne_nil hr.ne_nil

end ModuleSystem
