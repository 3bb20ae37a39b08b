import Mathlib.Data.List.TakeDrop
import Mathlib.Data.List.TakeWhile
import ModuleSystem.Proofs.Writes.Track

/-!
# Expressions as tokens

`Phrase b part ts ws n`: the tokens `ts` are an expression, as tight as `part` tells, that makes the
assignments `ws`, in the order in which they start; `b` tells whether it stands in a function.  Line
terminators may stand between the tokens wherever they do not change the meaning.  If the last token
closes a parenthesis, `n` is the number of assignments inside of it.

* `Begins`: what the track holds where an expression starts.
* `Done`: what it holds after an expression.  An assignment that ends with the expression is recorded,
  but its end is not set before the next token.
-/

namespace ModuleSystem

/-- The parts of expressions, from the loosest to the tightest. -/
inductive Part where
  /-- Expressions with commas between them. -/
  | elements
  | assignment
  | conditional
  | sum
  | operand
  /-- What a call or a member may follow. -/
  | callee
deriving DecidableEq, Repr

namespace Part

/-- A tighter part has a higher rank. -/
def rank : Part → Nat
  | elements => 0
  | assignment => 1
  | conditional => 2
  | sum => 3
  | operand => 4
  | callee => 5

end Part

namespace Token

/-- The token is a variable wherever an expression may start. -/
structure IsVariable (t : Token) : Prop where
  kind : t.kind = .identifier
  name : t.name ∉ Track.reserved

/-- The variable that a token is. -/
def binding (t : Token) : Binding := ⟨t.name, t.start⟩

/-- The end of the last token. -/
def stopOf (ts : List Token) : Nat := (ts.getLast?.map Token.stop).getD 0

@[simp] theorem stopOf_singleton (t : Token) : stopOf [t] = t.stop := rfl

@[simp] theorem stopOf_append_singleton (ts : List Token) (t : Token) : stopOf (ts ++ [t]) = t.stop := by
  simp [stopOf]

/-- The last of some tokens is the last of those behind. -/
theorem stopOf_append (ts : List Token) {us : List Token} (h : us ≠ []) : stopOf (ts ++ us) = stopOf us := by
  obtain ⟨us, u, rfl⟩ := (List.eq_nil_or_concat us).resolve_left h
  rw [List.concat_eq_append, ← List.append_assoc, stopOf_append_singleton, stopOf_append_singleton]

theorem stopOf_cons (t : Token) {ts : List Token} (h : ts ≠ []) : stopOf (t :: ts) = stopOf ts :=
  stopOf_append [t] h

end Token

open Token (stopOf)
open Scanner (continuesMember startsStatement endWrites)

/-- The tokens are an expression that makes the given assignments. -/
inductive Phrase (inFunction : Bool) : Part → List Token → List Write → Option Nat → Prop where
  | loosen {part part' : Part} {ts : List Token} {ws : List Write} {n : Option Nat}
      (h : Phrase inFunction part ts ws n) (hrank : part'.rank ≤ part.rank) :
      Phrase inFunction part' ts ws n
  | name {x : Token} (hx : x.IsVariable) : Phrase inFunction .callee [x] [] none
  | group {o c : Token} {ts : List Token} {ws : List Write} {n : Option Nat} (ho : o.kind = .openParen)
      (hc : c.kind = .closeParen) (h : Phrase inFunction .elements ts ws n) :
      Phrase inFunction .callee (o :: (ts ++ [c])) ws (some ws.length)
  | call {o c : Token} {ts us : List Token} {ws vs : List Write} {m n : Option Nat}
      (hf : Phrase inFunction .callee ts ws m) (ho : o.kind = .openParen) (hc : c.kind = .closeParen)
      (h : Phrase inFunction .elements us vs n) :
      Phrase inFunction .callee (ts ++ o :: (us ++ [c])) (ws ++ vs) (some vs.length)
  | callEmpty {o c : Token} {ts : List Token} {ws : List Write} {m : Option Nat}
      (hf : Phrase inFunction .callee ts ws m) (ho : o.kind = .openParen) (hc : c.kind = .closeParen) :
      Phrase inFunction .callee (ts ++ [o, c]) ws (some 0)
  | member {d x : Token} {ts : List Token} {ws : List Write} {m : Option Nat}
      (hf : Phrase inFunction .callee ts ws m) (hd : d.kind = .dot) (hx : x.kind.isName = true)
      (hline : x.newlineBefore = false) : Phrase inFunction .callee (ts ++ [d, x]) ws none
  | index {o c : Token} {ts us : List Token} {ws vs : List Write} {m n : Option Nat}
      (hf : Phrase inFunction .callee ts ws m) (ho : o.kind = .openBracket) (hc : c.kind = .closeBracket)
      (h : Phrase inFunction .elements us vs n) :
      Phrase inFunction .callee (ts ++ o :: (us ++ [c])) (ws ++ vs) none
  | number {t : Token} (ht : t.kind = .number) : Phrase inFunction .operand [t] [] none
  | array {o c : Token} {ts : List Token} {ws : List Write} {n : Option Nat} (ho : o.kind = .openBracket)
      (hc : c.kind = .closeBracket) (h : Phrase inFunction .elements ts ws n) :
      Phrase inFunction .operand (o :: (ts ++ [c])) ws none
  | arrayEmpty {o c : Token} (ho : o.kind = .openBracket) (hc : c.kind = .closeBracket) :
      Phrase inFunction .operand [o, c] [] none
  /-- A variable with an increment or decrement after it. -/
  | after {x u : Token} (hx : x.IsVariable) (hu : u.kind = .plusPlus ∨ u.kind = .minusMinus)
      (hline : u.newlineBefore = false) :
      Phrase inFunction .operand [x, u] [⟨[x.binding], x.start, u.stop, inFunction⟩] none
  /-- A variable with an increment or decrement before it. -/
  | before {u x : Token} (hu : u.kind = .plusPlus ∨ u.kind = .minusMinus) (hx : x.IsVariable) :
      Phrase inFunction .operand [u, x] [⟨[x.binding], u.start, x.stop, inFunction⟩] none
  | add {o : Token} {ts us : List Token} {ws vs : List Write} {m n : Option Nat}
      (hl : Phrase inFunction .sum ts ws m) (ho : o.kind = .plus) (hr : Phrase inFunction .operand us vs n) :
      Phrase inFunction .sum (ts ++ o :: us) (ws ++ vs) n
  | choose {q c : Token} {ts us xs : List Token} {ws vs ys : List Write} {l m n : Option Nat}
      (ht : Phrase inFunction .sum ts ws l) (hq : q.kind = .question)
      (hthen : Phrase inFunction .assignment us vs m) (hc : c.kind = .colon)
      (helse : Phrase inFunction .assignment xs ys n) :
      Phrase inFunction .conditional (ts ++ q :: (us ++ c :: xs)) (ws ++ (vs ++ ys)) n
  | assign {x o : Token} {ts : List Token} {ws : List Write} {n : Option Nat} (hx : x.IsVariable)
      (ho : o.kind.isAssign = true) (h : Phrase inFunction .assignment ts ws n) :
      Phrase inFunction .assignment (x :: o :: ts)
        (⟨[x.binding], x.start, stopOf ts, inFunction⟩ :: ws) n
  | comma {o : Token} {ts us : List Token} {ws vs : List Write} {m n : Option Nat}
      (hl : Phrase inFunction .elements ts ws m) (ho : o.kind = .comma)
      (hr : Phrase inFunction .assignment us vs n) :
      Phrase inFunction .elements (ts ++ o :: us) (ws ++ vs) n

/-- No phrase is empty. -/
theorem Phrase.ne_nil {b : Bool} {part : Part} {ts : List Token} {ws : List Write} {n : Option Nat}
    (h : Phrase b part ts ws n) : ts ≠ [] := by
  induction h with
  | loosen _ _ ih => exact ih
  | _ => simp

/-! ### What the track does at single tokens -/

namespace Track

variable {u v w : Track} {t : Token} {ts us : List Token} {ws vs : List Write} {stop : Nat}

/-- What tokens do after everything is settled for the first of them. -/
def enter (v : Track) : List Token → Option Track
  | [] => some v
  | t :: ts => (v.handle t).bind (·.run ts)

/-- Entering more tokens is entering some of them and running on. -/
theorem enter_append (h : ts ≠ []) : v.enter (ts ++ us) = (v.enter ts).bind (·.run us) := by
  cases ts with
  | nil => exact absurd rfl h
  | cons t ts =>
      simp only [List.cons_append, enter, run_append, Option.bind_assoc]

theorem settleUpdate_eq (hpending : v.pendingUpdate = none) (t : Token) : v.settleUpdate t = v := by
  rw [settleUpdate, writesAt, hpending, Option.toList_none, List.map_nil, List.append_nil, ite_self, ← hpending]

/-- Where an expression may start, nothing is to be settled. -/
theorem settle_eq (hpending : v.pendingUpdate = none) (hexpr : v.exprAllowed = true) (t : Token) :
    v.settle t = v := by
  rw [settle, settleUpdate_eq hpending, settleLine, startsLine, hexpr, Bool.not_true, Bool.and_false,
    Bool.false_and, Bool.false_and, if_neg Bool.false_ne_true]

/-- Where an expression may start, running is entering. -/
theorem run_eq_enter (hpending : v.pendingUpdate = none) (hexpr : v.exprAllowed = true) (ts : List Token) :
    v.run ts = v.enter ts := by
  cases ts with
  | nil => rfl
  | cons t ts => rw [run_cons, step, settle_eq hpending hexpr, enter]

/-- A token that starts no statement continues the expression on its line or the next one. -/
theorem step_eq (h : startsStatement t.kind = false) : v.step t = (v.settleUpdate t).handle t := by
  rw [step, settle, settleLine, startsLine, h, Bool.and_false, Bool.false_and, if_neg Bool.false_ne_true]

/-- An expression may start with the next token. -/
structure Begins (v : Track) : Prop where
  pendingUpdate : v.pendingUpdate = none
  ref : v.ref = none
  update : v.update = none
  prev : v.prev ≠ .dot ∧ v.prev ≠ .questionDot

/-- The assignments that are open around an expression do not end before it does. -/
def Surrounds (v : Track) (part : Part) : Prop :=
  ∀ c ∈ v.closes, c.depth < v.depth ∨
    (part ≠ .elements ∧ c.depth = v.depth ∧ c.ternaries ≤ v.top.ternaries)

/-- Between `u` and `v` the assignments `ws` were made. Those that are still open end where the
expression does that started at `u`. -/
structure Holds (u v : Track) (stop : Nat) (ws : List Write) : Prop where
  functionDepth : v.functionDepth = u.functionDepth
  top : v.top = u.top
  below : v.below = u.below
  prev : v.prev ≠ .dot ∧ v.prev ≠ .questionDot
  writes : ∃ opens, v.closes = opens ++ u.closes ∧
    (∀ c ∈ opens, c.depth = u.depth ∧ c.ternaries = u.top.ternaries) ∧
    endWrites stop (v.writesAt stop) opens = u.writes ++ ws

/-- An expression was passed between `u` and `v`. -/
structure Done (part : Part) (u v : Track) (stop : Nat) (ws : List Write) (n : Option Nat) : Prop
    extends Holds u v stop ws where
  exprAllowed : v.exprAllowed = false
  update : v.update = none
  arrow : v.prev ≠ .equalsGreaterThan
  tight : Part.sum.rank ≤ part.rank → v.closes = u.closes ∧ v.writesAt stop = u.writes ++ ws
  callee : part = .callee → v.pendingUpdate = none
  /-- Whether the last token closed a parenthesis, and what was assigned inside of it. -/
  last : match n with
    | some n => v.prev = .closeParen ∧ v.lastClosed.kind = .paren ∧
        v.lastClosed.writeCount + n = u.writes.length + ws.length
    | none => v.prev ≠ .closeParen

/-- Between `u` and `v` the assignments `ws` were made, and all of them have ended. -/
structure Keeps (u v : Track) (ws : List Write) : Prop where
  functionDepth : v.functionDepth = u.functionDepth
  top : v.top = u.top
  below : v.below = u.below
  closes : v.closes = u.closes
  writes : v.writes = u.writes ++ ws

theorem Keeps.depth (h : Keeps u v ws) : v.depth = u.depth := by rw [Track.depth, h.below, Track.depth]

/-- What was made before and what is made after come one after the other. -/
theorem Keeps.holds (h : Keeps u v ws) (hw : Holds v w stop vs) : Holds u w stop (ws ++ vs) where
  functionDepth := hw.functionDepth.trans h.functionDepth
  top := hw.top.trans h.top
  below := hw.below.trans h.below
  prev := hw.prev
  writes := by
    obtain ⟨opens, hcloses, hopens, hwrites⟩ := hw.writes
    refine ⟨opens, by rw [hcloses, h.closes], fun c hc => ?_, ?_⟩
    · rw [← h.top, ← h.depth]
      exact hopens c hc
    · rw [hwrites, h.writes, List.append_assoc]

/-- The expression that started at `u` goes on at `v` with another one. -/
structure Resumes (u v : Track) (ws : List Write) : Prop extends Begins v, Keeps u v ws where
  exprAllowed : v.exprAllowed = true

/-- What is done behind an operator is done for the whole. -/
theorem Resumes.done {part part' : Part} {n : Option Nat} (h : Resumes u v ws) (hd : Done part v w stop vs n)
    (hsum : Part.sum.rank ≤ part'.rank → Part.sum.rank ≤ part.rank) (hcallee : part' ≠ .callee) :
    Done part' u w stop (ws ++ vs) n where
  toHolds := h.toKeeps.holds hd.toHolds
  exprAllowed := hd.exprAllowed
  update := hd.update
  arrow := hd.arrow
  tight hrank := by
    obtain ⟨hcloses, hwrites⟩ := hd.tight (hsum hrank)
    exact ⟨hcloses.trans h.closes, by rw [hwrites, h.writes, List.append_assoc]⟩
  callee heq := absurd heq hcallee
  last := by
    have hlast := hd.last
    cases n with
    | none => exact hlast
    | some n =>
        refine ⟨hlast.1, hlast.2.1, ?_⟩
        rw [hlast.2.2, h.writes, List.length_append, List.length_append]
        omega

/-- What is done as a tighter part of an expression is done as a looser one. -/
theorem Done.loosen {part part' : Part} {n : Option Nat} (h : Done part u v stop ws n)
    (hrank : part'.rank ≤ part.rank) : Done part' u v stop ws n :=
  { h with
    tight := fun hsum => h.tight (hsum.trans hrank)
    callee := fun heq => h.callee (by subst heq; cases part <;> simp_all [Part.rank]) }

/-- The assignments that end with the expression, and no other ones, are closed. -/
theorem Holds.closeWhile (h : Holds u v stop ws) (hmember : continuesMember t.kind = false)
    (hstop : t.prevStop = stop) {p : PendingClose → Bool}
    (hopen : ∀ c, c.depth = u.depth → c.ternaries = u.top.ternaries → p c = true)
    (houter : ∀ c ∈ u.closes, p c = false) :
    (v.settleUpdate t).closeWhile t.prevStop p =
      { v with pendingUpdate := none, closes := u.closes, writes := u.writes ++ ws } := by
  obtain ⟨opens, hcloses, hopens, hwrites⟩ := h.writes
  have hspan : v.closes.span p = (opens, u.closes) := by
    have hpos : ∀ c ∈ opens, p c = true := fun c hc => hopen c (hopens c hc).1 (hopens c hc).2
    have hnone : u.closes.takeWhile p = [] :=
      List.takeWhile_eq_nil_iff.2 fun hl => by simp [houter _ (List.getElem_mem hl)]
    have hall : u.closes.dropWhile p = u.closes :=
      List.dropWhile_eq_self_iff.2 fun hl => by simp [houter _ (List.getElem_mem hl)]
    rw [hcloses, List.span_eq_takeWhile_dropWhile, List.takeWhile_append_of_pos hpos,
      List.dropWhile_append_of_pos hpos, hnone, hall, List.append_nil]
  subst hstop
  have hupdate : v.settleUpdate t = { v with writes := v.writesAt t.prevStop, pendingUpdate := none } := by
    rw [settleUpdate, hmember, if_neg Bool.false_ne_true]
  rw [hupdate, Track.closeWhile]
  dsimp only
  rw [hspan, hwrites]

/-- Where the assignments of a part end, the writes are those of the part. -/
theorem Holds.closeAll (h : Holds u v stop ws) (hmember : continuesMember t.kind = false)
    (hstop : t.prevStop = stop) (houter : ∀ c ∈ u.closes, c.depth < u.depth) :
    (v.settleUpdate t).closeAll t.prevStop =
      { v with pendingUpdate := none, closes := u.closes, writes := u.writes ++ ws } := by
  have hdepth : (v.settleUpdate t).depth = u.depth := by simp [depth, settleUpdate, h.below]
  refine h.closeWhile hmember hstop (fun c hc _ => ?_) fun c hc => ?_
  · simp [hdepth, hc]
  · simp [hdepth, houter c hc]

/-! ### Brackets -/

/-- Where an expression may start, it holds nothing yet. -/
theorem Begins.holds (h : v.Begins) (stop : Nat) : Holds v v stop [] where
  functionDepth := rfl
  top := rfl
  below := rfl
  prev := h.prev
  writes := ⟨[], rfl, by simp, by simp [writesAt, h.pendingUpdate, endWrites]⟩

/-- The state after an opening bracket. -/
def opened (v : Track) (kind : FrameKind) (o : Token) : Track := (v.push kind).next o true

/-- The kinds of the tokens of a bracket and of its frame. -/
inductive IsBracket : TokenKind → FrameKind → TokenKind → Prop where
  | paren : IsBracket .openParen .paren .closeParen
  | bracket : IsBracket .openBracket .bracket .closeBracket

variable {o c : Token} {kind : FrameKind}

/-- An opening bracket opens its frame. -/
theorem IsBracket.handle_open (h : IsBracket o.kind kind c.kind) (hprev : v.prev ≠ .questionDot) :
    v.handle o = some (v.opened kind o) := by
  have hparen : TokenKind.isName .openParen = false := rfl
  have hbracket : TokenKind.isName .openBracket = false := rfl
  unfold Track.handle
  rw [if_neg hprev]
  generalize ho : o.kind = k at h
  generalize c.kind = k' at h
  cases h with
  | paren => simp only [hparen, Bool.and_false, Bool.false_eq_true, reduceIte, opened]
  | bracket => simp only [hbracket, Bool.and_false, Bool.false_eq_true, reduceIte, opened]

end Track

end ModuleSystem
