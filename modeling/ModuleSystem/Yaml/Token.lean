import ModuleSystem.Yaml.Property
import ModuleSystem.Yaml.Scalar

/-!
# Tokens of YAML

Indentation becomes brackets: a token stands where a block of entries begins, and one where it ends.
That a scalar is a key shows only at the colon after it, so the token for the key is put before the
scalar then, and tokens are handed out only when no such token can be put before them any more.
-/

namespace ModuleSystem

/-- The kinds of tokens. -/
inductive YamlTokenKind where
  | streamStart
  | streamEnd
  | directive (d : YamlDirective)
  | documentStart
  | documentEnd
  | blockSequence
  | blockMapping
  | blockEnd
  | flowSequence
  | flowSequenceEnd
  | flowMapping
  | flowMappingEnd
  | blockEntry
  | flowEntry
  | key
  | value
  | reference (name : Text)
  | anchor (name : Text)
  | tag (t : YamlTag)
  | scalar (text : Text) (plain : Bool)
deriving DecidableEq, Repr

/-- A token and where it stands. -/
structure YamlToken where
  kind : YamlTokenKind
  start : YamlMark := {}
  stop : YamlMark := {}
deriving DecidableEq, Repr

/-- A place where a key may have begun. -/
structure YamlKey where
  possible : Bool := false
  /-- Something else than a key cannot stand there. -/
  required : Bool := false
  /-- The number of the token there. -/
  number : Nat := 0
  mark : YamlMark := {}
deriving DecidableEq, Repr

/-- The tokens of a document as far as they have been found. -/
structure YamlTokens where
  cursor : YamlCursor
  /-- The column of the innermost block. -/
  indent : Int := -1
  /-- The columns of the blocks around it. -/
  indents : List Int := []
  /-- The number of brackets around the cursor. -/
  level : Nat := 0
  /-- A key may begin at the cursor. -/
  keyAllowed : Bool := true
  /-- The key inside the innermost brackets. -/
  innermost : YamlKey := {}
  /-- The keys that may have begun around it. -/
  outer : List YamlKey := []
  /-- The tokens that may be keys, and how many brackets are around each. -/
  candidates : List (Nat × Nat) := []
  /-- The tokens that have not been handed out. -/
  queue : List YamlToken := [{ kind := .streamStart }]
  /-- The number of tokens that have been handed out. -/
  taken : Nat := 0
deriving DecidableEq, Repr

namespace YamlTokens

open Yaml

/-- Inside brackets indentation does not count. -/
def inFlow (t : YamlTokens) : Bool := 0 < t.level

/-- An error at the cursor. -/
def failHere (t : YamlTokens) (fault : YamlTokenFault) : Except YamlError α :=
  .error (.token fault t.cursor.mark t.cursor.mark)

/-- The tokens with one more. -/
def push (t : YamlTokens) (token : YamlToken) : YamlTokens :=
  { t with queue := t.queue ++ [token] }

/-- The tokens with one more before that with a number; at the end, when that has been handed
out. -/
def insert (t : YamlTokens) (number : Nat) (token : YamlToken) : YamlTokens :=
  if number < t.taken then t.push token
  else
    let (before, after) := t.queue.splitAt (number - t.taken)
    { t with queue := before ++ token :: after }

/-- The number of the next token. -/
def nextNumber (t : YamlTokens) : Nat := t.taken + t.queue.length

/-- Adds a token of so many characters at the cursor. -/
def sign (t : YamlTokens) (kind : YamlTokenKind) (width : Nat) : YamlTokens :=
  let cursor := t.cursor.steps width
  { t with cursor }.push ⟨kind, t.cursor.mark, cursor.mark⟩

/-! ### Keys -/

/-- The tokens without a candidate. -/
def unlist (t : YamlTokens) (number : Nat) : YamlTokens :=
  { t with candidates := t.candidates.eraseP fun (n, _) => n = number }

/-- A key can still end at the cursor. It must end on its line, and not too far away. -/
def isLive (t : YamlTokens) (k : YamlKey) : Except YamlError Bool :=
  if !k.possible then .ok false
  else if k.mark.line < t.cursor.mark.line || k.mark.index + 1024 < t.cursor.mark.index then
    if k.required then .error (.token .noColon k.mark t.cursor.mark) else .ok false
  else .ok true

/-- No key begins at the innermost place any more. -/
def dropKey (t : YamlTokens) : Except YamlError YamlTokens :=
  let k := t.innermost
  if !k.possible then .ok t
  else if k.required then .error (.token .noColon k.mark t.cursor.mark)
  else .ok ({ t with innermost := { k with possible := false } }.unlist k.number)

/-- A key may begin at the cursor, if one is allowed there. -/
def saveKey (t : YamlTokens) : Except YamlError YamlTokens := do
  if !t.keyAllowed then return t
  else
    let required := !t.inFlow && t.indent = t.cursor.mark.column
    let number := t.nextNumber
    let t ← t.dropKey
    return { t with
      innermost := { possible := true, required, number, mark := t.cursor.mark }
      candidates := (number, t.level) :: t.candidates }

/-- The key with so many brackets around it. -/
def keyAt (t : YamlTokens) (level : Nat) : YamlKey :=
  if level = t.level then t.innermost
  else if level < t.level then t.outer.getD (t.level - 1 - level) {}
  else {}

/-- The tokens with no key at a level. -/
def forget (t : YamlTokens) (level : Nat) : YamlTokens :=
  let closed (k : YamlKey) : YamlKey := { k with possible := false }
  if level = t.level then { t with innermost := closed t.innermost }
  else if level < t.level then { t with outer := t.outer.modify (t.level - 1 - level) closed }
  else t

/-! ### Blocks -/

/-- Ends the blocks beyond a column, with the blocks around them. -/
def endBlocks (column : Int) (mark : YamlMark) :
    Int → List Int → List YamlToken → Int × List Int × List YamlToken
  | indent, [], queue => (indent, [], queue)
  | indent, i :: is, queue =>
    if column < indent then endBlocks column mark i is (queue ++ [⟨.blockEnd, mark, mark⟩])
    else (indent, i :: is, queue)

/-- Ends the blocks beyond a column. -/
def unroll (t : YamlTokens) (column : Int) (mark : YamlMark) : YamlTokens :=
  if t.inFlow then t
  else
    let (indent, indents, queue) := endBlocks column mark t.indent t.indents t.queue
    { t with indent, indents, queue }

/-- Begins a block at a column, if it is beyond the block around it; before a token, or else at the
end. -/
def roll (t : YamlTokens) (column : Nat) (number : Option Nat) (kind : YamlTokenKind)
    (mark : YamlMark) : Except YamlError YamlTokens :=
  if t.inFlow || column ≤ t.indent then .ok t
  else
    let t := { t with indent := column, indents := t.indent :: t.indents }
    if YamlTokenFault.maxDepth < t.indents.length then
      .error (.token .depth t.innermost.mark t.cursor.mark)
    else .ok (t.insert (number.getD t.nextNumber) ⟨kind, mark, mark⟩)

/-- Ends all blocks, after which no key may stand. -/
def endAll (t : YamlTokens) : Except YamlError YamlTokens := do
  let t ← (t.unroll (-1) t.cursor.mark).dropKey
  return { t with keyAllowed := false }

/-! ### Signs -/

/-- Adds the end of the document. It stands on a line of its own. -/
def endStream (t : YamlTokens) : Except YamlError YamlTokens := do
  let mark := t.cursor.mark
  let mark := if mark.column = 0 then mark else { mark with column := 0, line := mark.line + 1 }
  let t ← { t with cursor := { t.cursor with mark } }.endAll
  return t.sign .streamEnd 0

/-- Adds a directive. -/
def addDirective (t : YamlTokens) : Except YamlError YamlTokens := do
  let t ← t.endAll
  let start := t.cursor.mark
  let (d, cursor) ← directive t.cursor
  return { t with cursor }.push ⟨.directive d, start, cursor.mark⟩

/-- Adds a mark between documents. -/
def addMark (t : YamlTokens) (kind : YamlTokenKind) : Except YamlError YamlTokens := do
  return (← t.endAll).sign kind 3

/-- Adds an opening bracket. -/
def openFlow (t : YamlTokens) (kind : YamlTokenKind) : Except YamlError YamlTokens := do
  let t ← t.saveKey
  let mark := t.cursor.mark
  if YamlTokenFault.maxDepth ≤ t.level then .error (.token .depth mark mark)
  else
    let t := { t with
      outer := t.innermost :: t.outer
      innermost := { number := t.nextNumber, mark }
      level := t.level + 1
      keyAllowed := true }
    return t.sign kind 1

/-- Adds a closing bracket. -/
def closeFlow (t : YamlTokens) (kind : YamlTokenKind) : Except YamlError YamlTokens := do
  let t ← t.dropKey
  let t := match t.outer with
    | k :: outer =>
      { t.unlist t.innermost.number with innermost := k, outer, level := t.level - 1 }
    | [] => t
  return { t with keyAllowed := false }.sign kind 1

/-- Adds a comma. -/
def flowEntry (t : YamlTokens) : Except YamlError YamlTokens := do
  return { ← t.dropKey with keyAllowed := true }.sign .flowEntry 1

/-- Adds the sign of an entry of a block. -/
def blockEntry (t : YamlTokens) : Except YamlError YamlTokens := do
  let mark := t.cursor.mark
  let t ←
    if t.inFlow then pure t
    else if t.keyAllowed then t.roll mark.column none .blockSequence mark
    else t.failHere .entryHere
  return { ← t.dropKey with keyAllowed := true }.sign .blockEntry 1

/-- Adds the sign of a key. -/
def addKey (t : YamlTokens) : Except YamlError YamlTokens := do
  let mark := t.cursor.mark
  let t ←
    if t.inFlow then pure t
    else if t.keyAllowed then t.roll mark.column none .blockMapping mark
    else t.failHere .keyHere
  return { ← t.dropKey with keyAllowed := !t.inFlow }.sign .key 1

/-- Adds the sign of a value. What may have been a key before it is one. -/
def addValue (t : YamlTokens) : Except YamlError YamlTokens := do
  let k := t.innermost
  if ← t.isLive k then
    let t := t.insert k.number ⟨.key, k.mark, k.mark⟩
    let t ← t.roll k.mark.column (some k.number) .blockMapping k.mark
    let t := { t with innermost := { k with possible := false } }.unlist k.number
    return { t with keyAllowed := false }.sign .value 1
  else
    let t := t.forget t.level
    let mark := t.cursor.mark
    let t ←
      if t.inFlow then pure t
      else if t.keyAllowed then t.roll mark.column none .blockMapping mark
      else t.failHere .valueHere
    return { t with keyAllowed := !t.inFlow }.sign .value 1

/-! ### Words -/

/-- Adds a token that may be a key and is read by `read`. -/
def addWord (t : YamlTokens)
    (read : YamlCursor → Except YamlError (YamlTokenKind × YamlCursor)) :
    Except YamlError YamlTokens := do
  let t ← t.saveKey
  let start := t.cursor.mark
  let (kind, cursor) ← read t.cursor
  return { t with cursor, keyAllowed := false }.push ⟨kind, start, cursor.mark⟩

/-- Adds a block of text, which is never a key. -/
def addBlock (t : YamlTokens) (literal : Bool) : Except YamlError YamlTokens := do
  let t ← t.dropKey
  let (text, cursor) ← block literal t.indent t.cursor
  return { t with cursor, keyAllowed := true }.push
    ⟨.scalar text false, t.cursor.mark, cursor.mark⟩

/-- Adds a plain scalar. After the end of its line a key may stand. -/
def addPlain (t : YamlTokens) : Except YamlError YamlTokens := do
  let t ← t.saveKey
  let (s, cursor) ← plain t.indent t.inFlow t.cursor
  return { t with cursor, keyAllowed := s.broken }.push
    ⟨.scalar s.text true, t.cursor.mark, s.stop⟩

/-- Adds a scalar between quotes. -/
def addQuoted (t : YamlTokens) (single : Bool) : Except YamlError YamlTokens :=
  t.addWord fun c => do
    let (text, c) ← quoted single c
    return (.scalar text false, c)

/-- The signs that a plain scalar does not begin with. -/
def signs : List Nat :=
  [45, 63, 58, 44, 91, 93, 123, 125, 35, 38, 42, 33, 124, 62, 39, 34, 37, 64, 96]

/-- A plain scalar may begin at the cursor. -/
def startsPlain (t : YamlTokens) : Bool :=
  let b := t.cursor.char
  let next := t.cursor.peek 1
  (!isGap b && !signs.elem b) || (b = 45 && !isBlank next)
    || (!t.inFlow && (b = 63 || b = 58) && !isGap next)

/-- Adds the token at the cursor, which is none for the whole document. -/
def addContent (t : YamlTokens) : Except YamlError YamlTokens :=
  let next := t.cursor.peek 1
  match t.cursor.char with
  | 91 => t.openFlow .flowSequence
  | 123 => t.openFlow .flowMapping
  | 93 => t.closeFlow .flowSequenceEnd
  | 125 => t.closeFlow .flowMappingEnd
  | 44 => t.flowEntry
  | 42 => t.addWord fun c => (anchorName c).map fun (name, c) => (.reference name, c)
  | 38 => t.addWord fun c => (anchorName c).map fun (name, c) => (.anchor name, c)
  | 33 => t.addWord fun c => (Yaml.tag c).map fun (tag, c) => (.tag tag, c)
  | 39 => t.addQuoted true
  | 34 => t.addQuoted false
  | b =>
    if b = 45 && isGap next then t.blockEntry
    else if b = 63 && (t.inFlow || isGap next) then t.addKey
    else if b = 58 && (t.inFlow || isGap next) then t.addValue
    else if b = 124 && !t.inFlow then t.addBlock true
    else if b = 62 && !t.inFlow then t.addBlock false
    else if t.startsPlain then t.addPlain
    else t.failHere .unknownStart

/-! ### Finding tokens -/

/-- Goes on to the next token, past at most `fuel` line ends. Tabs may stand where no key may
begin. -/
def skipSpace : Nat → YamlTokens → Except YamlError YamlTokens
  | 0, t => .ok t
  | fuel + 1, t => do
    let c ← t.cursor.need 1
    let c := if c.mark.column = 0 && c.mark.index < c.hidden then c.step else c
    let c ← c.skip fun b => b = 32 || (b = 9 && (t.inFlow || !t.keyAllowed))
    let c ← if c.char = 35 then c.comments (c.size + 1) else pure c
    if isBreak c.char then
      let c ← c.need 2
      skipSpace fuel { t with cursor := c.skipLine, keyAllowed := t.keyAllowed || !t.inFlow }
    else return { t with cursor := c }

/-- Adds the next token. A comment may follow it on its line. -/
def addNext (t : YamlTokens) : Except YamlError YamlTokens := do
  let scanned := t.cursor.mark
  let t ← t.skipSpace (t.cursor.size + 1)
  let t := t.unroll t.cursor.mark.column scanned
  let c ← t.cursor.need 4
  if c.char = 0 then t.endStream
  else if c.mark.column = 0 && c.char = 37 then t.addDirective
  else if c.isMark 45 then t.addMark .documentStart
  else if c.isMark 46 then t.addMark .documentEnd
  else
    let t ← t.addContent
    if (t.queue.getLast?.map (·.kind)) = some .blockEntry then return t
    else return { t with cursor := ← t.cursor.lineComment }

/-- The first token may still turn out to be a key. -/
def isUndecided (t : YamlTokens) : Except YamlError (Bool × YamlTokens) := do
  match t.candidates.lookup t.taken with
  | none => return (false, t)
  | some level =>
    if ← t.isLive (t.keyAt level) then return (true, t) else return (false, t.forget level)

/-- Adds tokens, at most `fuel` of them, until there are three and the first is decided. -/
def fill : Nat → YamlTokens → Except YamlError YamlTokens
  | 0, t => .ok t
  | fuel + 1, t => do
    if t.queue.length < 3 then fill fuel (← t.addNext)
    else
      let (undecided, t) ← t.isUndecided
      if undecided then fill fuel (← t.addNext) else return t

/-- The next token. -/
def peek (t : YamlTokens) : Except YamlError (YamlToken × YamlTokens) := do
  let t ← t.fill (2 * t.cursor.size + 8)
  match t.queue with
  | token :: _ => return (token, t)
  | [] => return ({ kind := .streamEnd }, t)

/-- The tokens after the next. -/
def next (t : YamlTokens) : YamlTokens :=
  { t with queue := t.queue.drop 1, taken := t.taken + 1 }

/-- The tokens of a document. -/
def ofSource (s : YamlSource) : Except YamlError YamlTokens := do
  return { cursor := ← (YamlCursor.start s).need 1 }

end YamlTokens

end ModuleSystem
