import ModuleSystem.Outline.Statement

/-!
# Scanning a module

`Scanner.step` handles one token, with the whole import or export statement that it may start.
`Outline.scan` repeats it up to the end of the source, and `Outline.read` adds the checks that need
all of the outline: that no name is exported twice and that no import is assigned.
-/

namespace ModuleSystem

namespace Scanner

/-- The token ends an element of an array or object. -/
def endsElement : TokenKind → Bool
  | .comma | .closeBracket | .closeBrace | .assign => true
  | _ => false

/-- The token starts a new statement when it is the first one of its line and follows the end of an
expression. -/
def startsStatement (k : TokenKind) : Bool :=
  match k with
  | .identifier | .escapedKeyword | .privateName | .string | .number | .bigInteger | .openBrace
  | .plusPlus | .minusMinus | .exclamation | .tilde | .atSign => true
  | .kwIn | .kwInstanceof => false
  | _ => k.isKeyword

/-- The token continues an expression that a member is taken of. -/
def continuesMember : TokenKind → Bool
  | .dot | .questionDot | .openBracket | .openParen | .template | .templateHead => true
  | _ => false

/-- The words that may precede the name of a member. -/
def memberModifiers : List Text :=
  ["get", "set", "async", "static", "accessor"].map Text.ofString

/-- An increment or decrement before a variable updates the variable, unless a member follows. -/
def settleUpdate (p : Scanner) : Scanner :=
  match p.pendingUpdate with
  | none => p
  | some (start, b) =>
    let p := { p with pendingUpdate := none }
    if continuesMember p.token.kind then p else p.addWrite [b] start p.token.prevStop

/-- A key without a value is a variable too: in a pattern it is bound, in an object it may be
assigned. -/
def settleShorthand (p : Scanner) : Scanner :=
  match p.top.shorthand with
  | none => p
  | some b =>
    let p :=
      if p.top.kind = .objectPattern && p.token.kind ≠ .colon then p.addBinding p.top.declFrame b
      else if p.top.kind = .object && endsElement p.token.kind then
        { p with top := { p.top with targets := p.top.targets ++ [b] } }
      else p
    { p with top := { p.top with shorthand := none } }

/-- Collects the variables of a literal that may turn out to be a pattern. -/
def collectTargets (p : Scanner) (left : Leftover) : Scanner :=
  if (p.top.kind = .bracket || p.top.kind = .object) && endsElement p.token.kind then
    let ref := if left.refIsElement then left.ref.toList else []
    { p with top := { p.top with targets := p.top.targets ++ ref ++ left.closedTargets } }
  else p

/-- The variables that the head of a loop assigns on each turn, at its `in` or `of`. -/
def loopTargets (p : Scanner) (ref : Option Binding) : List Binding :=
  let isHead := match ref, p.top.headRef with
    | some r, some h => r.start == h.start
    | _, _ => false
  if isHead then ref.toList
  else if (p.prev = .closeBracket || p.prev = .closeBrace) && p.lastClosed.isLoopTarget then
    p.lastClosed.targets
  else []

/-- Notes what the head of a loop assigns. -/
def noteLoop (p : Scanner) (ref : Option Binding) : Scanner :=
  if p.top.isForHead && p.top.loopTargets.isEmpty
      && (p.token.kind = .kwIn || p.token.isWord "of") then
    { p with top := { p.top with loopTargets := p.loopTargets ref } }
  else p

/-- After `let`, a declaration starts unless the word was a variable. -/
def settleLet (p : Scanner) (left : Leftover) : Scanner × Leftover :=
  if p.pendingLet then
    let p := { p with pendingLet := false }
    match p.token.kind with
    | .identifier | .openBracket | .openBrace =>
      (p.startDeclaration none, { left with ref := none })
    | _ => (p, left)
  else (p, left)

/-- A line terminator ends the statement or class member before it when the token could not
continue it. -/
def settleLine (p : Scanner) (left : Leftover) : Scanner × Leftover :=
  if p.token.newlineBefore && !p.exprAllowed && startsStatement p.token.kind
      && (p.top.kind.holdsStatements || p.top.kind = .classBody) then
    let left := { left with ref := none }
    (p.endStatement,
      if p.top.kind = .classBody then { left with keyPosition := true }
      else { left with stmtStart := true })
  else (p, left)

/-- Sets what the token leaves behind. -/
def leave (p : Scanner) (f : Leftover → Leftover) : Scanner := { p with left := f p.left }

/-- Handles a key of an object or a member of a class; none when the token is neither. -/
def stepKey (p : Scanner) : Option (Except Fault Scanner) :=
  let t := p.token
  if t.kind.isName then
    let p :=
      if p.top.kind = .objectPattern || (p.top.kind = .object && t.kind = .identifier) then
        { p with top := { p.top with shorthand := some ⟨t.name, t.start⟩ } }
      else p
    let p :=
      if t.kind = .identifier && memberModifiers.contains t.name then
        p.leave ({ · with keyPosition := true })
      else p
    some ((p.use t.name).next false)
  else match t.kind with
    | .string | .number | .bigInteger | .privateName => some (p.next false)
    | .asterisk => some ((p.leave ({ · with keyPosition := true })).next true)
    | _ => none

/-- Handles an identifier that is a variable or a binding. -/
def stepVariable (p : Scanner) (left : Leftover) : Except Fault Scanner := do
  let b : Binding := ⟨p.token.name, p.token.start⟩
  if p.top.decl.expectBinding then
    let p := { p with top := { p.top with decl := { p.top.decl with expectBinding := false } } }
    (p.addBinding p.below.length b).next false
  else if p.top.kind.isPattern && p.top.bindingNext then
    let p := { p with top := { p.top with bindingNext := false } }
    (p.addBinding p.top.declFrame b).next false
  else
    let p := if p.atForHeadStart then { p with top := { p.top with headRef := some b } } else p
    let isElement := p.atElementStart
    let p ← p.next false
    return { p with
      left := { p.left with ref := some b, refIsElement := isElement }
      pendingUpdate := left.update.map (·, b) }

/-- Handles an identifier, or a reserved word with an escape. -/
def stepIdentifier (p : Scanner) (left : Leftover) : Except Fault Scanner :=
  let t := p.token
  let p := p.use t.name
  let isWord (w : String) : Bool := t.kind = .identifier && t.name = Text.ofString w
  if isWord "let" && (left.stmtStart || p.atForHeadStart) then
    { p with pendingLet := true }.next true
  else if isWord "yield" then
    if p.functionDepth = 0 then .error (.yieldOutsideFunction t.range) else p.next true
  else if isWord "await" then
    if p.functionDepth = 0 then .error (.awaitOutsideFunction t.range) else p.next true
  else if isWord "async" then
    (p.leave ({ · with asyncStart := left.stmtStart })).stepVariable left
  else p.stepVariable left

/-- Handles an assignment operator after the variable `ref`, or after a pattern. A default value in
a pattern is not a write of its own, so its targets join those of the pattern. -/
def stepAssign (p : Scanner) (ref : Option Binding) : Except Fault Scanner :=
  let f := p.lastClosed
  let p :=
    if p.token.kind = .assign
        && ((p.prev = .closeBracket && f.isArrayLiteral)
          || (p.prev = .closeBrace && f.kind = .object)) then
      let targets := f.targets ++ (p.outline.writes.drop f.writeCount).flatMap (·.targets)
      let p := p.discardWrites f.writeCount
      if targets.isEmpty then p else p.startWrite targets f.start
    else match ref with
      | some b => p.startWrite [b] b.start
      | none => p
  p.next true

/-- Handles a colon. An assignment ends before the colon of a conditional that it is a branch of,
but not before the colon of a conditional that it holds. -/
def stepColon (p : Scanner) : Except Fault Scanner := do
  let kind := p.top.kind
  let ternaries := p.top.ternaries
  let p := p.closeWhile fun c => c.depth = p.depth && ternaries ≤ c.ternaries
  let p ← { p with top := { p.top with ternaries := ternaries - 1 } }.next true
  if kind = .objectPattern then return { p with top := { p.top with bindingNext := true } }
  else if kind.holdsStatements && ternaries = 0 then
    return p.leave ({ · with stmtStart := true })
  else return p

/-- What an opening brace opens. -/
def braceFrame (p : Scanner) (stmtStart : Bool) : Frame × Scanner :=
  match p.pendingClass with
  | some ⟨depth, isExpr⟩ =>
    if depth = p.depth then ({ kind := .classBody, isExpr }, { p with pendingClass := none })
    else plain p
  | none => plain p
where
  /-- What an opening brace opens when no class waits for its body. -/
  plain (p : Scanner) : Frame × Scanner :=
    if p.prev = .closeParen && p.lastClosed.kind = .paren then
      let p := p.discardWrites p.lastClosed.writeCount
      let isExpr :=
        match p.pendingFunction with
        | some body => if body.depth = p.depth then body.isExpr else p.top.kind == .object
        | none => p.top.kind == .object
      ({ kind := .functionBody, isExpr }, { p with pendingFunction := none })
    else if p.prev = .equalsGreaterThan then ({ kind := .functionBody, isExpr := true }, p)
    else if stmtStart || p.top.kind = .classBody then ({ kind := .block }, p)
    else match p.bindingTarget with
      | (some declFrame, p) => ({ kind := .objectPattern, declFrame }, p)
      | (none, p) =>
        if p.exprAllowed then ({ kind := .object, isLoopTarget := p.atForHeadStart }, p)
        else ({ kind := .block }, p)

/-- Handles an opening brace. -/
def stepOpenBrace (p : Scanner) (stmtStart : Bool) : Except Fault Scanner := do
  let (f, p) := p.braceFrame stmtStart
  let p ← (p.push f).next true
  match f.kind with
  | .object | .classBody | .objectPattern => return p.leave ({ · with keyPosition := true })
  | _ => return p.leave ({ · with stmtStart := true })

/-- Handles a closing brace. -/
def stepCloseBrace (p : Scanner) : Except Fault Scanner := do
  let p ← p.close
  let closed := p.lastClosed
  match closed.kind with
  | .block | .functionBody | .classBody =>
    let parent := p.top.kind
    let p ← p.next (!closed.isExpr)
    return p.leave fun l =>
      { l with
        stmtStart := !closed.isExpr && parent.holdsStatements
        keyPosition := parent = .classBody }
  | .object => (p.leave ({ · with closedTargets := closed.targets })).next false
  | _ => p.next false

/-- Handles an opening bracket. -/
def stepOpenBracket (p : Scanner) : Except Fault Scanner :=
  match p.bindingTarget with
  | (some declFrame, p) =>
    (p.push { kind := .arrayPattern, declFrame, bindingNext := true }).next true
  | (none, p) =>
    let isArrayLiteral := p.exprAllowed && p.top.kind ≠ .classBody
    let isLoopTarget := isArrayLiteral && p.atForHeadStart
    (p.push { kind := .bracket, isArrayLiteral, isLoopTarget }).next true

/-- Handles a closing bracket. -/
def stepCloseBracket (p : Scanner) : Except Fault Scanner := do
  let p ← p.close
  let p :=
    if p.lastClosed.kind = .bracket then
      p.leave ({ · with closedTargets := p.lastClosed.targets })
    else p
  p.next false

/-- Handles a closing parenthesis, and the loop whose head it may end. -/
def stepCloseParen (p : Scanner) : Except Fault Scanner := do
  let p ← p.close
  let closed := p.lastClosed
  let isStatement := closed.kind == .parenStatement
  let p ← p.next isStatement
  let p := p.leave ({ · with stmtStart := isStatement })
  if closed.loopTargets.isEmpty then return p
  let loop : LoopWrite :=
    { targets := closed.loopTargets
      body := p.token.start
      isBlock := p.token.kind == .openBrace
      inFunction := 0 < p.functionDepth }
  return { p with outline := { p.outline with loopWrites := p.outline.loopWrites ++ [loop] } }

/-- Handles a comma. -/
def stepComma (p : Scanner) : Except Fault Scanner := do
  if p.top.kind = .dynamicImport then throw (.expected TokenKind.closeParen.description p.token)
  let p := p.closeWrites p.depth
  let p :=
    if p.top.decl.active then
      { p with top := { p.top with decl := { p.top.decl with expectBinding := true } } }
    else p
  let p ← p.next true
  match p.top.kind with
  | .object | .objectPattern => return p.leave ({ · with keyPosition := true })
  | .arrayPattern => return { p with top := { p.top with bindingNext := true } }
  | _ => return p

/-- Handles an increment or decrement. -/
def stepUpdate (p : Scanner) (ref : Option Binding) : Except Fault Scanner := do
  match ref, p.token.newlineBefore with
  | some b, false => (p.addWrite [b] b.start p.token.stop).next false
  | _, _ =>
    let start := p.token.start
    let p ← p.next true
    return p.leave ({ · with update := some start })

/-- Handles `import`, which starts a statement, a dynamic import or a reference to metadata. -/
def stepImport (p : Scanner) (stmtStart : Bool) : Except Fault Scanner := do
  let keyword := p.token.range
  let p ← p.advance
  match p.token.kind with
  | .openParen =>
    let o := { p.outline with dynamicImports := p.outline.dynamicImports ++ [keyword] }
    let p ← ({ p with outline := o }.push { kind := .dynamicImport }).next true
    if p.token.kind = .closeParen || p.token.kind = .dotDotDot then throw (.unexpected p.token)
    return p
  | .dot =>
    let p ← p.advance
    unless p.token.isWord "meta" do throw (.expected (Quoted.display "meta") p.token)
    let o := { p.outline with importMetas := p.outline.importMetas ++ [keyword] }
    let p := { p with outline := o }
    p.next false
  | _ =>
    unless p.atModuleItem stmtStart do throw (.unexpectedImport keyword)
    p.readImport keyword.start

/-- Handles the current token by its kind. -/
def stepKind (p : Scanner) (left : Leftover) : Except Fault Scanner := do
  let t := p.token
  match t.kind with
  | .identifier | .escapedKeyword =>
    let p := if t.isWord "await" then p.leave ({ · with nextParen := left.nextParen }) else p
    p.stepIdentifier left
  | .privateName | .string | .number | .bigInteger | .template | .regExp | .templateTail | .kwThis
  | .kwSuper | .kwNull | .kwTrue | .kwFalse => p.next false
  | .templateHead | .templateMiddle => (p.push { kind := .template }).next true
  | .kwImport => p.stepImport left.stmtStart
  | .kwExport =>
    unless p.atModuleItem left.stmtStart do throw (.unexpected t)
    p.readExport
  | .kwVar | .kwConst =>
    let p := if left.stmtStart || p.atForHeadStart then p.startDeclaration none else p
    p.next true
  | .kwFunction =>
    let isDeclaration := left.stmtStart || (left.asyncStart && !t.newlineBefore)
    let body : PendingBody := { depth := p.depth, isExpr := !isDeclaration }
    let p := { p with pendingFunction := some body }
    p.next true
  | .kwClass =>
    let body : PendingBody := { depth := p.depth, isExpr := !left.stmtStart }
    let p := { p with pendingClass := some body }
    p.next true
  | .kwReturn =>
    if p.functionDepth = 0 then throw (.returnOutsideFunction t.range)
    p.next true
  | .kwIf | .kwWhile | .kwWith | .kwSwitch =>
    (p.leave ({ · with nextParen := .statement })).next true
  | .kwCatch =>
    let p ← (p.leave ({ · with nextParen := .statement })).next true
    return p.leave ({ · with stmtStart := p.token.kind = .openBrace })
  | .kwFor => (p.leave ({ · with nextParen := .forHead })).next true
  | .kwDo | .kwElse | .kwTry | .kwFinally =>
    return (← p.next true).leave ({ · with stmtStart := true })
  | .kwIn =>
    let p := if p.top.isForHead then { p with top := { p.top with decl := {} } } else p
    p.next true
  | .openParen =>
    let kind := if left.nextParen = .none then FrameKind.paren else .parenStatement
    (p.push { kind, isForHead := left.nextParen = .forHead }).next true
  | .closeParen => p.stepCloseParen
  | .openBracket => p.stepOpenBracket
  | .closeBracket => p.stepCloseBracket
  | .openBrace => p.stepOpenBrace left.stmtStart
  | .closeBrace => p.stepCloseBrace
  | .semicolon =>
    let p ← p.endStatement.next true
    return p.leave fun l =>
      { l with
        stmtStart := p.top.kind.holdsStatements
        keyPosition := p.top.kind = .classBody }
  | .comma => p.stepComma
  | .colon => p.stepColon
  | .question =>
    let p := { p with top := { p.top with ternaries := p.top.ternaries + 1 } }
    p.next true
  | .equalsGreaterThan =>
    let p :=
      if p.prev = .closeParen && p.lastClosed.kind = .paren then
        p.discardWrites p.lastClosed.writeCount
      else p
    p.next true
  | .plusPlus | .minusMinus => p.stepUpdate left.ref
  | .dotDotDot =>
    let p :=
      if p.top.kind.isPattern then { p with top := { p.top with bindingNext := true } } else p
    p.next true
  | .dot | .questionDot => p.next false
  | k => if k.isAssign then p.stepAssign left.ref else p.next true

/-- Handles the current token. -/
def step (p : Scanner) : Except Fault Scanner :=
  let left := p.left
  let p := { p with left := {} }.settleUpdate.settleShorthand
  let p := (p.collectTargets left).noteLoop left.ref
  let (p, left) := p.settleLet left
  let (p, left) := p.settleLine left
  if (p.prev = .dot || p.prev = .questionDot)
      && (p.token.kind.isName || p.token.kind = .privateName) then p.next false
  else match (if left.keyPosition then p.stepKey else none) with
    | some result => result
    | none => p.stepKind left

/-- Reads the current token again where only the scanner knows what it is: a slash where an
expression may start, and the brace that ends a template substitution. -/
def retokenize (p : Scanner) : Except Fault Scanner := do
  match p.token.kind with
  | .slash | .slashAssign =>
    if p.exprAllowed then return { p with lexer := ← p.lexer.asRegExp } else return p
  | .closeBrace =>
    if p.top.kind = .template then
      let p := (p.closeWrites p.depth).pop
      return { p with lexer := ← p.lexer.asTemplate }
    else return p
  | _ => return p

/-- Handles tokens up to the end of the source, at most `fuel` of them. -/
def run : Nat → Scanner → Except Fault Scanner
  | 0, p => .error (.endless p.token.start)
  | fuel + 1, p => do
    let p ← p.retokenize
    if p.token.kind = .endOfFile then return p
    run fuel (← p.step)

/-- Closes what is open at the end of the source. -/
def finish (p : Scanner) : Except Fault Outline :=
  if p.below.isEmpty then
    let p := match p.pendingUpdate with
      | some (start, b) => p.addWrite [b] start p.token.prevStop
      | none => p
    .ok (p.closeWrites 0).outline
  else .error (.expected p.top.kind.closer.description p.token)

end Scanner

namespace Outline

/-- The outline of a source. -/
def scan (s : Source) : Except Fault Outline := do
  let lexer ← Lexer.start s .script
  let p : Scanner ←
    if lexer.token.kind = .hashbang then
      pure { lexer := ← lexer.next, outline := { hashbang := lexer.token.range } }
    else pure { lexer }
  (← p.run (s.contents.length + 2)).finish

/-- The range of a name, which may be written as a string. -/
def nameRange (s : Source) (b : Binding) : Range :=
  match s.contents[b.start]? with
  | some 34 | some 39 => s.rangeOfString b.start
  | _ => ⟨b.start, b.name.length⟩

/-- The names that a statement exports, and where. -/
def exportsOf : Statement → List Binding
  | .exportClause _ items | .exportFrom _ _ items => items.map fun i => ⟨i.asName, i.asStart⟩
  | .exportStarAs _ _ b => [b]
  | .exportDeclaration _ names => names
  | .exportDefault keyword .. => [⟨"default", keyword.start⟩]
  | .imports .. | .exportStar .. => []

/-- The exports of a name that is exported before. -/
def repeated (seen : List Text) : List Binding → List Binding
  | [] => []
  | b :: bs => if seen.contains b.name then b :: repeated seen bs else repeated (b.name :: seen) bs

/-- The places outside of functions that assign to an import. Inside a function the name may be that
of another variable. -/
def assignedImports (o : Outline) : List Binding :=
  let names := o.importedNames
  let writes := o.writes.filter (!·.inFunction) |>.flatMap (·.targets)
  let loops := o.loopWrites.filter (!·.inFunction) |>.flatMap (·.targets)
  (writes ++ loops).filter fun b => names.contains b.name

/-- What is wrong with the outline as a whole. -/
def check (s : Source) (o : Outline) : List Fault :=
  (repeated [] (o.statements.flatMap exportsOf)).map
      (fun b => .duplicateExport (nameRange s b) b.name)
    ++ o.assignedImports.map fun b => .assignedImport (nameRange s b) b.name

/-- The outline of a source that is a module, or everything that is wrong with it. -/
def read (s : Source) : Except (List Fault) Outline :=
  match scan s with
  | .error f => .error [f]
  | .ok o => if (o.check s).isEmpty then .ok o else .error (o.check s)

end Outline

end ModuleSystem
