import ModuleSystem.Outline.Scanner
import ModuleSystem.Text.Utf16

/-!
# Import and export statements

The only statements that are read in full.  Each reader starts on the token after the keyword.
-/

namespace ModuleSystem.Scanner

/-- The names that no binding may have in a module, besides the reserved words. -/
def reservedNames : List Text :=
  ["arguments", "await", "eval", "implements", "interface", "let", "package", "private",
    "protected", "public", "static", "yield"].map Text.ofString

/-- Reads the name of a new local variable. -/
def readBinding (p : Scanner) : Except Fault (Binding × Scanner) := do
  let t := p.token
  if t.kind ≠ .identifier then throw (.expected TokenKind.identifier.description t)
  if reservedNames.contains t.name then throw (.reservedBinding t.range t.name)
  return (⟨t.name, t.start⟩, ← (p.use t.name).advance)

/-- A name in an import or export clause. -/
structure ExportName where
  name : Text
  range : Range
  /-- It could also name a variable. -/
  isIdentifier : Bool

/-- Reads the name of an export: an identifier, a reserved word or a string. -/
def readExportName (p : Scanner) : Except Fault (ExportName × Scanner) := do
  let t := p.token
  if t.kind = .string then
    match Utf16.toText? t.units with
    | .error _ => throw (.unpairedSurrogate t.range)
    | .ok name => return (⟨name, t.range, false⟩, ← p.advance)
  else if t.kind.isName then return (⟨t.name, t.range, t.kind = .identifier⟩, ← p.advance)
  else throw (.expected TokenKind.identifier.description t)

/-- Reads the key and value of an import attribute; only JSON can be asked for. -/
def readAttribute (p : Scanner) : Except Fault Scanner := do
  let t := p.token
  let key ←
    if t.kind = .string then pure (Utf16.toText t.units)
    else if t.kind.isName then pure t.name
    else throw (.expected TokenKind.identifier.description t)
  let p ← (← p.advance).expect .colon
  let v := p.token
  if v.kind ≠ .string then throw (.expected TokenKind.string.description v)
  if key ≠ Text.ofString "type" then throw (.unsupportedAttribute t.range key)
  let value := Utf16.toText v.units
  if value ≠ Text.ofString "json" then throw (.unsupportedAttributeType v.range value)
  p.advance

/-- Reads items that are separated by commas up to a closing brace, with at most `fuel` items. -/
def readItems (item : Scanner → Except Fault (α × Scanner)) :
    Nat → Scanner → Except Fault (List α × Scanner)
  | 0, p => .error (.endless p.token.start)
  | fuel + 1, p =>
    if p.token.kind = .closeBrace then .ok ([], p)
    else do
      let (a, p) ← item p
      if p.token.kind = .comma then
        let (as, p) ← readItems item fuel (← p.advance)
        return (a :: as, p)
      else return ([a], p)

/-- Reads items between braces. -/
def readBraced (p : Scanner) (item : Scanner → Except Fault (α × Scanner)) :
    Except Fault (List α × Scanner) := do
  let p ← p.expect .openBrace
  let (as, p) ← readItems item (p.lexer.cursor.rest.length + 2) p
  return (as, ← p.expect .closeBrace)

/-- Reads the attributes of an import; tells whether JSON is asked for. -/
def readAttributes (p : Scanner) : Except Fault (Bool × Scanner) := do
  let (as, p) ← (← p.advance).readBraced fun p => do return ((), ← p.readAttribute)
  return (!as.isEmpty, p)

/-- Finds the record of a specifier, or adds one. -/
def addRecord (records : List ImportRecord) (path : Text) (range : Range) (json : Bool) :
    Nat × List ImportRecord :=
  match records.findIdx? (·.path = path) with
  | some i => (i, records.modify i fun r => { r with json := r.json || json })
  | none => (records.length, records ++ [{ path, range, json }])

/-- Reads a specifier with its attributes; the result is the index of its record. -/
def readSpecifier (p : Scanner) : Except Fault (Nat × Scanner) := do
  let t := p.token
  if t.kind ≠ .string then throw (.expected TokenKind.string.description t)
  let p ← p.advance
  let n := p.token
  let (json, p) ←
    if n.kind = .kwWith || (n.isWord "assert" && !n.newlineBefore) then p.readAttributes
    else pure (false, p)
  let (i, records) := addRecord p.outline.records (Utf16.toText t.units) t.range json
  return (i, { p with outline := { p.outline with records } })

/-- Adds a statement. -/
def addStatement (p : Scanner) (s : Statement) : Scanner :=
  { p with outline := { p.outline with statements := p.outline.statements ++ [s] } }

/-- Reads the end of a statement that started at `start` and adds the statement. -/
def finishStatement (p : Scanner) (start : Nat) (s : Range → Statement) : Except Fault Scanner := do
  let (stop, p) ←
    if p.token.kind = .semicolon then pure (p.token.stop, ← p.advance)
    else pure (p.token.prevStop, { p with lexer := ← p.lexer.expectSemicolon })
  return { p.addStatement (s (.between start stop)) with
    prev := .semicolon
    exprAllowed := true
    left := { p.left with stmtStart := true } }

/-- Reads the name of a namespace import, which is on its asterisk. -/
def readStar (p : Scanner) : Except Fault (Binding × Scanner) := do
  let p ← p.expect .asterisk
  let p ← p.expectWord "as"
  p.readBinding

/-- Reads one item of an import clause. -/
def readImportItem (p : Scanner) : Except Fault (ClauseItem × Scanner) := do
  let (n, p) ← p.readExportName
  if p.token.isWord "as" then
    let (b, p) ← (← p.advance).readBinding
    return (⟨n.name, b.name, n.range.start, b.start⟩, p)
  else if !n.isIdentifier then throw (.expectedAs n.range)
  else if reservedNames.contains n.name then throw (.reservedBinding n.range n.name)
  else return (⟨n.name, n.name, n.range.start, n.range.start⟩, p.use n.name)

/-- Reads the import statement that started at `start`. -/
def readImport (p : Scanner) (start : Nat) : Except Fault Scanner := do
  let (byDefault, star, items, p) ←
    match p.token.kind with
    | .string => pure (none, none, [], p)
    | .asterisk => do
      let (b, p) ← p.readStar
      pure (none, some b, [], ← p.expectWord "from")
    | .openBrace => do
      let (items, p) ← p.readBraced readImportItem
      pure (none, none, items, ← p.expectWord "from")
    | .identifier => do
      let (d, p) ← p.readBinding
      if p.token.kind = .comma then
        let p ← p.advance
        match p.token.kind with
        | .asterisk => do
          let (b, p) ← p.readStar
          pure (some d, some b, [], ← p.expectWord "from")
        | .openBrace => do
          let (items, p) ← p.readBraced readImportItem
          pure (some d, none, items, ← p.expectWord "from")
        | _ => throw (.unexpected p.token)
      else pure (some d, none, [], ← p.expectWord "from")
    | _ => throw (.unexpected p.token)
  let (record, p) ← p.readSpecifier
  p.finishStatement start fun r => .imports r record byDefault star items

/-- Reads one item of an export clause, and the range of its name if that is no identifier. -/
def readExportItem (p : Scanner) : Except Fault ((ClauseItem × Option Range) × Scanner) := do
  let (n, p) ← p.readExportName
  let p := if n.isIdentifier then p.use n.name else p
  let odd := if n.isIdentifier then none else some n.range
  if p.token.isWord "as" then
    let (a, p) ← (← p.advance).readExportName
    return ((⟨n.name, a.name, n.range.start, a.range.start⟩, odd), p)
  else return ((⟨n.name, n.name, n.range.start, n.range.start⟩, odd), p)

/-- The next brace at this depth opens the body of a declaration. -/
def expectBody (p : Scanner) (isClass : Bool) : Scanner :=
  let body : PendingBody := { depth := p.depth }
  { p with
    pendingClass := if isClass then some body else p.pendingClass
    pendingFunction := if isClass then p.pendingFunction else some body
    prev := .identifier
    exprAllowed := false }

/-- Skips the keyword of a function or class, and the asterisk of a generator. -/
def skipKeyword (p : Scanner) : Except Fault (Bool × Scanner) := do
  let isClass := p.token.kind == .kwClass
  let p ← p.advance
  if !isClass && p.token.kind = .asterisk then return (isClass, ← p.advance)
  return (isClass, p)

/-- Reads an exported function or class up to its name. -/
def readExportedBody (p : Scanner) (keyword : Range) : Except Fault Scanner := do
  let (isClass, p) ← p.skipKeyword
  let (b, p) ← p.readBinding
  return (p.addStatement (.exportDeclaration keyword [b])).expectBody isClass

/-- Reads an exported declaration of variables up to its first binding. -/
def readExportedVariables (p : Scanner) (keyword : Range) : Except Fault Scanner :=
  let index := p.outline.statements.length
  ((p.addStatement (.exportDeclaration keyword [])).startDeclaration (some index)).next true

/-- Reads a default export up to its expression or body. -/
def readExportDefault (p : Scanner) (keyword : Range) : Except Fault Scanner := do
  let keyword := Range.between keyword.start p.token.stop
  let p ← p.advance
  let (asyncOnly, p) ←
    if p.token.isWord "async" then do
      let p ← (p.use (Text.ofString "async")).advance
      pure (p.token.kind ≠ .kwFunction || p.token.newlineBefore, p)
    else pure (false, p)
  if asyncOnly then
    return { p.addStatement (.exportDefault keyword .expression none 0) with
      prev := .identifier, exprAllowed := false }
  else if p.token.kind = .kwFunction || p.token.kind = .kwClass then
    let (isClass, p) ← p.skipKeyword
    let kind := if isClass then DefaultKind.classBody else .function
    if p.token.kind = .identifier then
      let (b, p) ← p.readBinding
      return (p.addStatement (.exportDefault keyword kind (some b) 0)).expectBody isClass
    else
      return (p.addStatement (.exportDefault keyword kind none p.token.prevStop)).expectBody isClass
  else
    return { p.addStatement (.exportDefault keyword .expression none 0) with
      prev := .assign, exprAllowed := true }

/-- Reads the export statement that the current token starts. -/
def readExport (p : Scanner) : Except Fault Scanner := do
  let keyword := p.token.range
  let p ← p.advance
  match p.token.kind with
  | .asterisk =>
    let p ← p.advance
    let (name, p) ←
      if p.token.isWord "as" then do
        let (n, p) ← (← p.advance).readExportName
        pure (some (Binding.mk n.name n.range.start), p)
      else pure (none, p)
    let p ← p.expectWord "from"
    let (record, p) ← p.readSpecifier
    p.finishStatement keyword.start fun r =>
      match name with
      | some b => .exportStarAs r record b
      | none => .exportStar r record
  | .openBrace =>
    let (read, p) ← p.readBraced readExportItem
    let items := read.map (·.1)
    if p.token.isWord "from" then
      let (record, p) ← (← p.advance).readSpecifier
      p.finishStatement keyword.start fun r => .exportFrom r record items
    else match read.findSome? (·.2) with
      | some r => throw (.expectedName r)
      | none => p.finishStatement keyword.start fun r => .exportClause r items
  | .kwDefault => p.readExportDefault keyword
  | .kwVar | .kwConst => p.readExportedVariables keyword
  | .identifier =>
    if p.token.isWord "let" then p.readExportedVariables keyword
    else if p.token.isWord "async" then
      let p ← p.advance
      if p.token.kind ≠ .kwFunction || p.token.newlineBefore then
        throw (.expected TokenKind.kwFunction.description p.token)
      p.readExportedBody keyword
    else throw (.unexpected p.token)
  | .kwFunction | .kwClass => p.readExportedBody keyword
  | _ => throw (.unexpected p.token)

end ModuleSystem.Scanner
