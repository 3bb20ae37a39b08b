import ModuleSystem.Lexer
import ModuleSystem.Outline

/-!
# The scanner

The scanner reads the tokens of a module once and keeps a stack of frames, one for each open
bracket.  The frames tell whether a slash opens a regular expression, whether a brace opens a
block, a function body, a class, an object or a pattern, and whether an identifier is a variable, a
binding or a key.
-/

namespace ModuleSystem

/-- What an open bracket is. -/
inductive FrameKind where
  | module
  | block
  | functionBody
  | object
  | classBody
  | template
  | paren
  /-- A parenthesis that belongs to a statement. -/
  | parenStatement
  | bracket
  | dynamicImport
  | objectPattern
  | arrayPattern
deriving DecidableEq, Repr

namespace FrameKind

/-- The token that closes a frame. -/
def closer : FrameKind → TokenKind
  | .paren | .parenStatement | .dynamicImport => .closeParen
  | .bracket | .arrayPattern => .closeBracket
  | _ => .closeBrace

/-- Statements stand in the frame. -/
def holdsStatements : FrameKind → Bool
  | .module | .block | .functionBody => true
  | _ => false

/-- The frame is a destructuring pattern of a declaration. -/
def isPattern : FrameKind → Bool
  | .objectPattern | .arrayPattern => true
  | _ => false

end FrameKind

/-- A declaration of variables that is being read. -/
structure Declaration where
  active : Bool := false
  /-- The next identifier or pattern is bound. -/
  expectBinding : Bool := false
  /-- The index of the export statement that the declaration belongs to. -/
  export? : Option Nat := none
deriving DecidableEq, Repr

/-- An open bracket. -/
structure Frame where
  kind : FrameKind
  start : Nat := 0
  /-- The closing brace of the function or class ends an expression. -/
  isExpr : Bool := false
  /-- The parenthesis after `for`. -/
  isForHead : Bool := false
  /-- The number of writes recorded before the frame was opened. -/
  writeCount : Nat := 0
  /-- The variables that are assigned if the literal is the target of an assignment. -/
  targets : List Binding := []
  isArrayLiteral : Bool := false
  /-- A literal at the start of the head of a loop. -/
  isLoopTarget : Bool := false
  /-- An identifier at the start of the head of a loop. -/
  headRef : Option Binding := none
  /-- The variables that the loop assigns. -/
  loopTargets : List Binding := []
  /-- The number of question marks without colon. -/
  ternaries : Nat := 0
  decl : Declaration := {}
  /-- In a pattern: the index, from the module up, of the frame of its declaration. -/
  declFrame : Nat := 0
  /-- In a pattern: the next identifier or pattern is bound. -/
  bindingNext : Bool := false
  /-- A key that may turn out to be a variable as well. -/
  shorthand : Option Binding := none
deriving Repr

/-- An assignment whose end is not known yet. -/
structure PendingClose where
  depth : Nat
  ternaries : Nat
  /-- The index of the write. -/
  write : Nat
deriving DecidableEq, Repr

/-- A function or class whose body is not open yet. -/
structure PendingBody where
  depth : Nat
  isExpr : Bool := false
deriving DecidableEq, Repr

/-- What the next parenthesis belongs to. -/
inductive ParenUse where
  | none
  | statement
  | forHead
deriving DecidableEq, Repr

/-- What a token leaves behind for the next one. -/
structure Leftover where
  /-- A statement may start. -/
  stmtStart : Bool := false
  /-- A key of an object or a member of a class may start. -/
  keyPosition : Bool := false
  /-- The token was a variable. -/
  ref : Option Binding := none
  /-- The variable is a whole element of a literal. -/
  refIsElement : Bool := false
  /-- The variables of a literal that was closed. -/
  closedTargets : List Binding := []
  /-- The offset of an increment or decrement before its operand. -/
  update : Option Nat := none
  /-- The token was `async` where a statement may start. -/
  asyncStart : Bool := false
  nextParen : ParenUse := .none
deriving Repr

/-- The state of the scanner. -/
structure Scanner where
  lexer : Lexer
  outline : Outline := {}
  /-- The innermost open frame. -/
  top : Frame := { kind := .module }
  /-- The frames around it, the innermost first. -/
  below : List Frame := []
  functionDepth : Nat := 0
  /-- The assignments whose end is not known, the latest first. -/
  closes : List PendingClose := []
  /-- The kind of the token before the current one. -/
  prev : TokenKind := .endOfFile
  /-- An expression may start. -/
  exprAllowed : Bool := true
  left : Leftover := { stmtStart := true }
  /-- The frame that was closed last. -/
  lastClosed : Frame := { kind := .module }
  /-- An increment or decrement before a variable, when the variable was the last token. -/
  pendingUpdate : Option (Nat × Binding) := none
  /-- The last token was `let` where a declaration may start. -/
  pendingLet : Bool := false
  pendingClass : Option PendingBody := none
  pendingFunction : Option PendingBody := none

namespace Scanner

/-- The current token. -/
def token (p : Scanner) : Token := p.lexer.token

/-- The number of open frames. -/
def depth (p : Scanner) : Nat := p.below.length + 1

/-- The frame at an index, counted from the module up. -/
def frame? (p : Scanner) (i : Nat) : Option Frame := (p.top :: p.below).reverse[i]?

/-- Moves on to the next token. -/
def advance (p : Scanner) : Except Fault Scanner := do
  return { p with lexer := ← p.lexer.next }

/-- Moves on from a token that is done with. -/
def next (p : Scanner) (exprAllowed : Bool) : Except Fault Scanner :=
  { p with prev := p.token.kind, exprAllowed }.advance

/-- Moves on from a token of the given kind. -/
def expect (p : Scanner) (k : TokenKind) : Except Fault Scanner := do
  return { p with lexer := ← p.lexer.expect k }

/-- Moves on from a given word. -/
def expectWord (p : Scanner) (word : Text) : Except Fault Scanner := do
  return { p with lexer := ← p.lexer.expectWord word }

/-- Records that a name occurs. -/
def use (p : Scanner) (name : Text) : Scanner :=
  { p with outline := { p.outline with usedNames := name :: p.outline.usedNames } }

/-- Opens a frame at the current token. -/
def push (p : Scanner) (f : Frame) : Scanner :=
  { p with
    top := { f with start := p.token.start, writeCount := p.outline.writes.length }
    below := p.top :: p.below
    functionDepth := if f.kind = .functionBody then p.functionDepth + 1 else p.functionDepth }

/-- Leaves the innermost frame. The frame of the module is never left. -/
def pop (p : Scanner) : Scanner :=
  match p.below with
  | [] => p
  | f :: below =>
    { p with
      top := f
      below
      functionDepth :=
        if p.top.kind = .functionBody then p.functionDepth - 1 else p.functionDepth }

/-- Sets the ends of writes. -/
def endWrites (stop : Nat) (writes : List Write) (closing : List PendingClose) : List Write :=
  closing.foldl (fun ws c => ws.modify c.write fun w => { w with stop }) writes

/-- Ends the latest assignments for which `p` holds before the current token. -/
def closeWhile (p : Scanner) (closes : PendingClose → Bool) : Scanner :=
  let (closing, rest) := p.closes.span closes
  { p with
    closes := rest
    outline :=
      { p.outline with writes := endWrites p.token.prevStop p.outline.writes closing } }

/-- Ends every assignment that started at a depth or deeper. -/
def closeWrites (p : Scanner) (depth : Nat) : Scanner :=
  p.closeWhile fun c => depth ≤ c.depth

/-- Forgets all writes but the first `count`. -/
def discardWrites (p : Scanner) (count : Nat) : Scanner :=
  if p.outline.writes.length ≤ count then p
  else
    { p with
      outline := { p.outline with writes := p.outline.writes.take count }
      closes := p.closes.dropWhile fun c => count ≤ c.write }

/-- Records a write. -/
def addWrite (p : Scanner) (targets : List Binding) (start stop : Nat) : Scanner :=
  let write : Write := { targets, start, stop, inFunction := 0 < p.functionDepth }
  { p with outline := { p.outline with writes := p.outline.writes ++ [write] } }

/-- Records a write that ends with the enclosing expression. -/
def startWrite (p : Scanner) (targets : List Binding) (start : Nat) : Scanner :=
  let close : PendingClose :=
    { depth := p.depth, ternaries := p.top.ternaries, write := p.outline.writes.length }
  { p.addWrite targets start 0 with closes := close :: p.closes }

/-- Adds a name to the export statement that the declaration of a frame belongs to, if any. -/
def addBinding (p : Scanner) (declFrame : Nat) (b : Binding) : Scanner :=
  match (p.frame? declFrame).bind (·.decl.export?) with
  | none => p
  | some i =>
    { p with
      outline := { p.outline with statements := p.outline.statements.modify i (·.declare b) } }

/-- A declaration starts in the innermost frame. -/
def startDeclaration (p : Scanner) (export? : Option Nat) : Scanner :=
  { p with top := { p.top with decl := { active := true, expectBinding := true, export? } } }

/-- The statement or member in the innermost frame is over. -/
def endStatement (p : Scanner) : Scanner :=
  let p := p.closeWrites p.depth
  { p with top := { p.top with decl := {}, ternaries := 0 } }

/-- Leaves the innermost frame, which the current token closes. -/
def close (p : Scanner) : Except Fault Scanner :=
  if p.top.kind.closer ≠ p.token.kind || p.below.isEmpty then .error (.unexpected p.token)
  else
    let p := p.closeWrites p.depth
    .ok { p.pop with lastClosed := p.top }

/-- The current token is the first one in the head of a loop. -/
def atForHeadStart (p : Scanner) : Bool := p.prev == .openParen && p.top.isForHead

/-- An identifier here is a whole element of an array or a whole value of an object. -/
def atElementStart (p : Scanner) : Bool :=
  match p.top.kind with
  | .bracket => p.prev == .openBracket || p.prev == .comma || p.prev == .dotDotDot
  | .object => p.prev == .colon || p.prev == .dotDotDot
  | _ => false

/-- An import or export may stand here: not as the body of a conditional, a loop or a label. -/
def atModuleItem (p : Scanner) (stmtStart : Bool) : Bool :=
  stmtStart && p.below.isEmpty
    && match p.prev with
      | .kwElse | .kwDo | .colon => false
      | .closeParen => p.lastClosed.kind ≠ .parenStatement
      | _ => true

/-- The frame of the declaration that a bracket here destructures, if any. -/
def bindingTarget (p : Scanner) : Option Nat × Scanner :=
  if p.top.decl.expectBinding then
    (some p.below.length,
      { p with top := { p.top with decl := { p.top.decl with expectBinding := false } } })
  else if p.top.kind.isPattern && p.top.bindingNext then
    (some p.top.declFrame, { p with top := { p.top with bindingNext := false } })
  else (none, p)

end Scanner

end ModuleSystem
