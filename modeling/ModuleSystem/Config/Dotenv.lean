import ModuleSystem.Text.Utf8
import ModuleSystem.Text.Utf16

/-!
# Environment files

Settings written as variables of an environment, one to a line.  A value in quotes may go on over
several lines.  Outside single quotes a dollar sign stands for the value of a variable, of the
environment itself or of an earlier line.
-/

namespace ModuleSystem

/-- What is wrong with an environment file. -/
inductive DotenvError where
  /-- A quote has no partner. -/
  | openQuote
  /-- A variable is exported that has no value. -/
  | unset (line : Text)
  | badLine (line : Text)
deriving DecidableEq, Repr

/-- The wording of an error. -/
def DotenvError.message : DotenvError → Text
  | openQuote => "missing quotes"
  | unset line => "line `" ++ line ++ Text.ofString "` has an unset variable"
  | badLine line => "line `" ++ line ++ Text.ofString "` doesn't match format"

namespace Dotenv

/-! ### Lines -/

/-- The code units of some bytes, of which a last odd one is left out. -/
def unitsOf (unit : UInt8 → UInt8 → UInt16) : Text → List UInt16
  | a :: b :: t => unit a b :: unitsOf unit t
  | _ => []

/-- The text of bytes in two-byte units. A byte that is left over stands for U+FFFD. -/
def ofUnits (unit : UInt8 → UInt8 → UInt16) (t : Text) : Text :=
  Utf16.toTextRepaired (unitsOf unit t)
    ++ (if t.length % 2 = 1 then Utf8.encode Utf8.replacement else [])

/-- The text of a file, in the encoding that a byte order mark at its beginning tells. -/
def decode : Text → Text
  | 0xEF :: 0xBB :: 0xBF :: t => Utf8.repair t
  | 0xFF :: 0xFE :: t => ofUnits (fun a b => b.toUInt16 * 256 + a.toUInt16) t
  | 0xFE :: 0xFF :: t => ofUnits (fun a b => a.toUInt16 * 256 + b.toUInt16) t
  | t => t

/-- The lines of a text of which `line` has been read of the first. Any of the usual line ends ends
a line. -/
def linesFrom (line : Text) : Text → List Text
  | [] => if line.isEmpty then [] else [line]
  | 13 :: 10 :: t => line :: linesFrom [] t
  | 13 :: t => line :: linesFrom [] t
  | 10 :: t => line :: linesFrom [] t
  | b :: t => linesFrom (line ++ [b]) t

/-- The quote that a line leaves open. -/
def openQuote? (line : Text) : Option UInt8 :=
  match (line.idxOf? 61).orElse fun _ => line.idxOf? 58 with
  | none => none
  | some i =>
    if i = 0 || line.length ≤ i + 1 then none
    else
      match Text.trim (line.drop (i + 1)) with
      | [] => none
      | quote :: rest =>
        if quote ≠ 34 && quote ≠ 39 then none
        else
          match (Text.trim rest).lastIdxOf? quote with
          | some j => if ((quote :: rest).drop j).head? = some 92 then some quote else none
          | none => some quote

/-- Takes the lines that follow up to the one that closes a quote. -/
def untilClosed (quote : UInt8) (line : Text) : List Text → Option (Text × List Text)
  | [] => none
  | next :: rest =>
    let line := line ++ 10 :: next
    match next.lastIdxOf? quote with
    | none => untilClosed quote line rest
    | some i =>
      if 0 < i && (next.drop (i - 1)).head? = some 92 then untilClosed quote line rest
      else some (line, rest)

/-! ### The form of a line -/

/-- The white space between the parts of a line. -/
def isBlank (b : UInt8) : Bool := b = 32 || b = 9 || b = 10 || b = 12 || b = 13

/-- The bytes of a name. -/
def isNameByte (b : UInt8) : Bool := Ascii.isLetter b || Ascii.isDigit b || b = 95 || b = 46

/-- Nothing but white space and a comment follows. -/
def isTail (t : Text) : Bool :=
  match t.dropWhile isBlank with
  | [] => true
  | 35 :: t => !t.elem 10
  | _ => false

/-- The longest beginning of a text that ends with a quote and has only a tail after it, where
`before` comes before it. -/
def untilQuote? (quote : UInt8) (before : Text) : Text → Option Text
  | [] => none
  | b :: t =>
    (untilQuote? quote (before ++ [b]) t).orElse fun _ =>
      if b = quote && isTail t then some (before ++ [b]) else none

/-- The value at the beginning of a text, when only a tail follows. -/
def value? (t : Text) : Option Text :=
  let quoted := match t with
    | 34 :: rest => untilQuote? 34 [34] rest
    | 39 :: rest => untilQuote? 39 [39] rest
    | _ => none
  let (plain, rest) := t.span fun b => b ≠ 35 && b ≠ 10
  quoted <|> (if !plain.isEmpty && isTail rest then some plain else none)
    <|> (if isTail t then some [] else none)

/-- The value after a colon, which white space has to follow. As little of it as possible is
skipped. -/
def valueAfterColon? : Text → Option Text
  | b :: t => if isBlank b then (value? t).orElse fun _ => valueAfterColon? t else none
  | [] => none

/-- The name and the value of a line that starts with the name. -/
def assignment? (t : Text) : Option (Text × Text) :=
  let (name, rest) := t.span isNameByte
  if name.isEmpty then none
  else
    match rest.dropWhile isBlank, rest with
    | 61 :: rest, _ => (value? (rest.dropWhile isBlank)).map (name, ·)
    | _, 58 :: rest => (valueAfterColon? rest).map (name, ·)
    | _, _ => none

/-- The name and the value of a line. -/
def parts? (line : Text) : Option (Text × Text) :=
  let line := line.dropWhile isBlank
  let exported := match Text.dropStart? "export" line with
    | some (b :: rest) => if isBlank b then assignment? (rest.dropWhile isBlank) else none
    | _ => none
  exported <|> assignment? line

/-! ### Values -/

/-- The text with the escapes for line ends carried out. -/
def breakLines : Text → Text
  | 92 :: 110 :: t => 10 :: breakLines t
  | b :: t => b :: breakLines t
  | [] => []

/-- The text with the escapes for carriage returns carried out. -/
def breakReturns : Text → Text
  | 92 :: 114 :: t => 13 :: breakReturns t
  | b :: t => b :: breakReturns t
  | [] => []

/-- The text without the backslashes that escape anything but a dollar sign. -/
def unescape : Text → Text
  | 92 :: 36 :: t => 92 :: 36 :: unescape t
  | 92 :: b :: t => b :: unescape t
  | b :: t => b :: unescape t
  | [] => []

/-- The bytes of the name of a variable in a value. -/
def isVariableByte (b : UInt8) : Bool := (65 ≤ b && b ≤ 90) || Ascii.isDigit b || b = 95

/-- What stands for a variable after a dollar sign: its length, and its name. -/
def reference (t : Text) : Nat × Text :=
  let opened := if t.head? = some 123 then 1 else 0
  let name := (t.drop opened).takeWhile isVariableByte
  let closed := if (t.drop (opened + name.length)).head? = some 125 then 1 else 0
  (opened + name.length + closed, name)

/-- The text with variables replaced by their values, after the first `skip` bytes. -/
def expand (valueOf : Text → Text) : Nat → Text → Text
  | _, [] => []
  | skip + 1, _ :: t => expand valueOf skip t
  | 0, 92 :: 36 :: t =>
    let (length, _) := reference t
    36 :: t.take length ++ expand valueOf (length + 1) (36 :: t)
  | 0, 36 :: t =>
    let (length, name) := reference t
    (if name.isEmpty then 36 :: t.take length else valueOf name) ++ expand valueOf length t
  | 0, b :: t => b :: expand valueOf 0 t

/-- The value of a variable: that of the environment, or else that of an earlier line. -/
def lookUp (environment earlier : List (Text × Text)) (name : Text) : Text :=
  ((environment.lookup name).orElse fun _ => earlier.lookup name).getD []

/-- The value that stands on a line. -/
def finish (valueOf : Text → Text) (written : Text) : Text :=
  let v := Text.trim written
  let within (quote : UInt8) : Bool :=
    2 ≤ v.length && v.head? = some quote && v.getLast? = some quote
  let inner := (v.drop 1).dropLast
  if within 34 then expand valueOf 0 (unescape (breakReturns (breakLines inner)))
  else if within 39 then inner
  else expand valueOf 0 v

/-- The error for a line that has no value. A line that exports a variable may be meant. -/
def misfit (earlier : List (Text × Text)) (line : Text) : DotenvError :=
  let trimmed := Text.trim line
  match trimmed.startsWith "export", trimmed.idxOf? 32 with
  | true, some i =>
    if (earlier.lookup (trimmed.drop (i + 1))).isNone then .unset trimmed else .badLine line
  | _, _ => .badLine line

/-- The variables of some lines, of which at most `fuel` are read, after those of earlier ones. -/
def variablesFrom (environment : List (Text × Text)) :
    Nat → List (Text × Text) → List Text → Except DotenvError (List (Text × Text))
  | 0, done, _ => .ok done
  | _, done, [] => .ok done
  | fuel + 1, done, line :: rest => do
    let line := Text.trim line
    if line.isEmpty || line.head? = some 35 then variablesFrom environment fuel done rest
    else
      let (line, rest) ← match openQuote? line with
        | none => .ok (line, rest)
        | some quote =>
          match untilClosed quote line rest with
          | some found => .ok found
          | none => .error .openQuote
      match parts? line with
      | none => .error (misfit done line)
      | some (name, written) =>
        let v := finish (lookUp environment done) written
        variablesFrom environment fuel (Table.set name v done) rest

/-- The variables of a file. -/
def read (environment : List (Text × Text)) (t : Text) :
    Except DotenvError (List (Text × Text)) :=
  let lines := linesFrom [] (decode t)
  variablesFrom environment lines.length [] lines

end Dotenv

end ModuleSystem
