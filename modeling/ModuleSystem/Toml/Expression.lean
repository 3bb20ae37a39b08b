import ModuleSystem.Toml.Moments
import ModuleSystem.Toml.Numbers
import ModuleSystem.Toml.Strings

/-!
# Expressions of TOML

A document is a sequence of lines, and a line holds a key with its value, the header of a table, or
nothing.  Values are read here as they are written: whether a word is a number, and whether a key
may stand where it does, is a matter for later.
-/

namespace ModuleSystem

/-- What is wrong with the form of a document. -/
inductive TomlSyntaxError where
  | lineEnd (byte : UInt8)
  | returnAtEnd
  | loneReturn
  | comment
  /-- Another byte has to stand here. -/
  | expected (byte : UInt8)
  /-- A byte has to stand here, but nothing follows. -/
  | endedBefore (byte : UInt8)
  | noEquals
  | noValue
  | noKey
  | badKey (byte : UInt8)
  /-- A value that starts as a word does, and is not the word. -/
  | word (name : Text)
  | string (e : TomlStringError)
  | openArray
  | commaFirst
  | noComma
  | openTable
  | numberLetter (byte : UInt8)
  | noNumber
deriving DecidableEq, Repr

/-- The wording of an error. -/
def TomlSyntaxError.message : TomlSyntaxError → Text
  | lineEnd b => "expected newline but got " ++ Quoted.codePoint b.toNat
  | returnAtEnd => "windows new line expected"
  | loneReturn => "windows new line should be \\r\\n"
  | comment => "invalid character in comment"
  | expected b => "expected character " ++ Utf8.encode b.toNat
  | endedBefore b =>
    "expected character " ++ Utf8.encode b.toNat ++ Text.ofString " but the document ended here"
  | noEquals => "expected = after a key, but the document ends there"
  | noValue => "expected value, not eof"
  | noKey => "expected key but found none"
  | badKey b => "invalid character at start of key: " ++ Utf8.encode b.toNat
  | word name => "expected '" ++ name ++ Text.ofString "'"
  | string e => e.message
  | openArray => "array is incomplete"
  | commaFirst => "array cannot start with comma"
  | noComma => "array elements must be separated by commas"
  | openTable => "inline table is incomplete"
  | numberLetter b =>
    "unexpected character '" ++ Utf8.encode b.toNat ++ Text.ofString "' while scanning for a number"
  | noNumber => "incomplete number"

/-- A value as it is written. -/
inductive TomlValue where
  | string (value : Text)
  | bool (value : Bool)
  | integer (word : Text)
  | float (word : Text)
  | moment (kind : Toml.MomentKind) (word : Text)
  | array (elements : List TomlValue)
  | table (entries : List (List Text × TomlValue))
deriving Repr

/-- What a line holds. -/
inductive TomlExpression where
  | entry (key : List Text) (value : TomlValue)
  | header (key : List Text)
  /-- The header of one more table of a list. -/
  | listHeader (key : List Text)
deriving Repr

namespace Toml

/-! ### Blanks, comments and line ends -/

/-- What follows the blanks at the beginning of a text. -/
def skipBlanks (t : Text) : Text := t.dropWhile fun b => b = 32 || b = 9

/-- What follows a comment after its first byte. A carriage return stands before a line feed
only. -/
def skipComment (t : Text) : Except TomlSyntaxError Text :=
  let (body, rest) := t.span fun b => b ≠ 10 && b ≠ 13
  if !isAllowedText body then .error .comment
  else
    match rest with
    | 13 :: 10 :: rest => .ok (10 :: rest)
    | 13 :: _ => .error .comment
    | rest => .ok rest

/-- What follows a line end. -/
def lineEnd : Text → Except TomlSyntaxError Text
  | 10 :: t => .ok t
  | 13 :: 10 :: t => .ok t
  | [13] => .error .returnAtEnd
  | 13 :: _ => .error .loneReturn
  | b :: _ => .error (.lineEnd b)
  | [] => .ok []

/-- What follows blanks, comments and line ends, of which at most `fuel` are skipped. -/
def skipGap : Nat → Text → Except TomlSyntaxError Text
  | 0, t => .ok t
  | fuel + 1, t => do
    let t ← match skipBlanks t with
      | 35 :: t => skipComment t
      | t => .ok t
    match t with
    | 10 :: _ => skipGap fuel (← lineEnd t)
    | 13 :: _ => skipGap fuel (← lineEnd t)
    | t => return t

/-- What follows a byte that has to stand here. -/
def expect (b : UInt8) : Text → Except TomlSyntaxError Text
  | [] => .error (.endedBefore b)
  | c :: t => if c = b then .ok t else .error (.expected b)

/-! ### Keys -/

/-- The bytes of a key without quotes. -/
def isBare (b : UInt8) : Bool := Ascii.isLetter b || Ascii.isDigit b || b = 45 || b = 95

/-- The result of reading a string. -/
def ofString (r : Except TomlStringError α) : Except TomlSyntaxError α :=
  match r with
  | .ok a => .ok a
  | .error e => .error (.string e)

/-- Reads one part of a key. -/
def keyPart : Text → Except TomlSyntaxError (Text × Text)
  | [] => .error .noKey
  | 39 :: t => ofString (literalString t)
  | 34 :: t => ofString (basicString t)
  | b :: t => if isBare b then .ok ((b :: t).span isBare) else .error (.badKey b)

/-- Reads a key of at most `fuel` parts with points between them. -/
def key : Nat → Text → Except TomlSyntaxError (List Text × Text)
  | 0, _ => .error .noKey
  | fuel + 1, t => do
    let (part, rest) ← keyPart t
    match skipBlanks rest with
    | 46 :: rest =>
      let (parts, rest) ← key fuel (skipBlanks rest)
      return (part :: parts, rest)
    | rest => return ([part], rest)

/-! ### Numbers, dates and times -/

/-- What has been seen in a date or time. -/
structure MomentParts where
  date : Bool := false
  clock : Bool := false
  zone : Bool := false
  space : Bool := false
deriving DecidableEq, Repr

/-- What a date or time with some parts consists of. -/
def MomentParts.kind (p : MomentParts) : MomentKind :=
  if !p.clock then .date else if !p.date then .clock else if p.zone then .zoned else .both

/-- The number of bytes of a date or time, and its parts, after the first `i` bytes of it. A blank
belongs to it once, before a digit, and the byte after that digit does then too. -/
def momentEnd (i : Nat) (p : MomentParts) : Text → Nat × MomentParts
  | [] => (i, p)
  | b :: t =>
    if Ascii.isDigit b then momentEnd (i + 1) p t
    else if b = 45 then momentEnd (i + 1) { p with date := true, zone := p.zone || 8 ≤ i } t
    else if b = 84 || b = 116 || b = 58 || b = 46 then momentEnd (i + 1) { p with clock := true } t
    else if b = 43 || b = 90 || b = 122 then momentEnd (i + 1) { p with zone := true } t
    else if b = 32 && !p.space && t.head?.any Ascii.isDigit then
      let p := { p with space := true, clock := true }
      match t with
      | _ :: _ :: t => momentEnd (i + 3) p t
      | t => (i + 1 + t.length, p)
    else (i, p)

/-- The value starts as a date or a time of day does. -/
def startsMoment (t : Text) : Bool :=
  let digits := (t.take 5).takeWhile Ascii.isDigit
  let next := (t.drop digits.length).head?
  3 ≤ t.length && ((digits.length = 2 && next = some 58) || (digits.length = 4 && next = some 45))

/-- The bytes of whole numbers in other bases, by the letter of the base. -/
def baseDigits? (letter : UInt8) : Option (UInt8 → Bool) :=
  if letter = 120 then some fun b => (Ascii.hexValue? b).isSome || b = 95
  else if letter = 111 then some fun b => (48 ≤ b && b ≤ 55) || b = 95
  else if letter = 98 then some fun b => b = 48 || b = 49 || b = 95
  else none

/-- Reads a number that is not written in another base, of which `word` is already read. -/
def decimal (word : Text) (isFloat : Bool) : Text → Except TomlSyntaxError (TomlValue × Text)
  | b :: t =>
    if Ascii.isDigit b || b = 43 || b = 45 || b = 95 then decimal (word ++ [b]) isFloat t
    else if b = 46 || isExponentMark b then decimal (word ++ [b]) true t
    else if b = 105 || b = 110 then
      let name : Text := if b = 105 then "inf" else "nan"
      if Text.startsWith (b :: t) name then .ok (.float (word ++ name), t.drop 2)
      else .error (.numberLetter b)
    else if word.isEmpty then .error .noNumber
    else .ok (if isFloat then .float word else .integer word, b :: t)
  | [] =>
    if word.isEmpty then .error .noNumber
    else .ok (if isFloat then .float word else .integer word, [])

/-- Reads a number. After a leading zero only a point, an exponent or the letter of a base may go
on. -/
def number (t : Text) : Except TomlSyntaxError (TomlValue × Text) :=
  match t with
  | 48 :: b :: c :: rest =>
    if b = 46 || isExponentMark b then decimal [] false t
    else
      match baseDigits? b with
      | some isDigit =>
        let (ds, rest) := (c :: rest).span isDigit
        .ok (.integer (48 :: b :: ds), rest)
      | none => .ok (.integer [48], b :: c :: rest)
  | t => decimal [] false t

/-- Reads a number, a date or a time. -/
def numberOrMoment (t : Text) : Except TomlSyntaxError (TomlValue × Text) :=
  match t with
  | 105 :: _ =>
    if t.startsWith "inf" then .ok (.float "inf", t.drop 3) else .error (.word "inf")
  | 110 :: _ =>
    if t.startsWith "nan" then .ok (.float "nan", t.drop 3) else .error (.word "nan")
  | t =>
    if startsMoment t then
      let (length, parts) := momentEnd 0 {} t
      .ok (.moment parts.kind (t.take length), t.drop length)
    else number t

/-! ### Values -/

mutual

/-- Reads a value, in at most `fuel` nested steps. -/
def value : Nat → Text → Except TomlSyntaxError (TomlValue × Text)
  | 0, _ => .error .noValue
  | _, [] => .error .noValue
  | fuel + 1, b :: t =>
    if b = 34 || b = 39 then
      (ofString (string (b :: t))).map fun (s, t) => (.string s, t)
    else if b = 116 then
      if Text.startsWith (b :: t) "true" then .ok (.bool true, t.drop 3) else .error (.word "true")
    else if b = 102 then
      if Text.startsWith (b :: t) "false" then .ok (.bool false, t.drop 4)
      else .error (.word "false")
    else if b = 91 then (elements fuel true t).map fun (vs, t) => (.array vs, t)
    else if b = 123 then (entries fuel true t).map fun (es, t) => (.table es, t)
    else numberOrMoment (b :: t)

/-- Reads the elements of an array up to its end. A comma may stand after the last one. -/
def elements : Nat → Bool → Text → Except TomlSyntaxError (List TomlValue × Text)
  | 0, _, _ => .error .openArray
  | _, _, [] => .error (.endedBefore 93)
  | fuel + 1, first, t => do
    let t ← skipGap (t.length + 1) t
    let t ← match t with
      | [] => .error .openArray
      | 93 :: _ => .ok t
      | 44 :: t => if first then .error .commaFirst else skipGap (t.length + 1) t
      | t => if first then .ok t else .error .noComma
    match t with
    | 93 :: t => return ([], t)
    | t =>
      let (v, t) ← value fuel t
      let t ← skipGap (t.length + 1) t
      let (vs, t) ← elements fuel false t
      return (v :: vs, t)

/-- Reads the entries of an inline table up to its end. -/
def entries : Nat → Bool → Text → Except TomlSyntaxError (List (List Text × TomlValue) × Text)
  | 0, _, _ => .error .openTable
  | _, _, [] => .error (.endedBefore 125)
  | fuel + 1, first, t => do
    let t := skipBlanks t
    match t with
    | [] => .error .openTable
    | 125 :: t => return ([], t)
    | t =>
      let t ← if first then .ok t else (expect 44 t).map skipBlanks
      let (e, t) ← entry fuel t
      let (es, t) ← entries fuel false t
      return (e :: es, t)

/-- Reads a key with its value. -/
def entry : Nat → Text → Except TomlSyntaxError ((List Text × TomlValue) × Text)
  | 0, _ => .error .noKey
  | fuel + 1, t => do
    let (path, t) ← key (t.length + 1) t
    let t := skipBlanks t
    let t ← if t.isEmpty then .error .noEquals else expect 61 t
    let (v, t) ← value fuel (skipBlanks t)
    return ((path, v), t)

end

/-! ### Lines -/

/-- Reads a header after its first bracket. -/
def header (t : Text) : Except TomlSyntaxError (TomlExpression × Text) :=
  match t with
  | 91 :: t => do
    let (path, t) ← key (t.length + 1) (skipBlanks t)
    return (.listHeader path, ← expect 93 (← expect 93 (skipBlanks t)))
  | t => do
    let (path, t) ← key (t.length + 1) (skipBlanks t)
    return (.header path, ← expect 93 (skipBlanks t))

/-- Reads a line up to its end. -/
def expression (t : Text) : Except TomlSyntaxError (Option TomlExpression × Text) := do
  match skipBlanks t with
  | [] => return (none, [])
  | 35 :: t => return (none, ← skipComment t)
  | 10 :: t => return (none, 10 :: t)
  | 13 :: t => return (none, 13 :: t)
  | t =>
    let (e, rest) ← match t with
      | 91 :: t => header t
      | t => (entry (2 * t.length + 2) t).map fun ((path, v), rest) => (.entry path v, rest)
    match skipBlanks rest with
    | 35 :: rest => return (some e, ← skipComment rest)
    | rest => return (some e, rest)

end Toml

end ModuleSystem
