import ModuleSystem.Text.Utf8

/-!
# Records of comma-separated values

A list on a command line: fields divided by commas, of which one that starts with a double quote
goes on to the next quote that stands alone.  Two quotes within it stand for one, and it may go on
over the ends of lines.  `Record.write` is the other direction; a record that has been written is
read back as it was, but for the carriage returns before line ends.
-/

namespace ModuleSystem

/-- A place in a text, and the line on which the record starts. -/
structure RecordPlace where
  start : Nat
  line : Nat
  column : Nat
deriving DecidableEq, Repr

/-- The wording of a place. -/
def RecordPlace.message (p : RecordPlace) : Text :=
  let inner : Text :=
    "parse error on line " ++ Text.ofNat p.line ++ Text.ofString ", column " ++ Text.ofNat p.column
  if p.start = p.line then inner
  else "record on line " ++ Text.ofNat p.start ++ Text.ofString "; " ++ inner

/-- Why a text is no record. -/
inductive RecordError where
  /-- There is nothing but line ends. -/
  | ended
  /-- A quote inside a field that does not start with one. -/
  | bareQuote (place : RecordPlace)
  /-- A quoted field does not end where it should. -/
  | badQuote (place : RecordPlace)
deriving DecidableEq, Repr

namespace RecordError

/-- The wording of an error. -/
def message : RecordError → Text
  | ended => "EOF"
  | bareQuote place => place.message ++ Text.ofString ": bare \" in non-quoted-field"
  | badQuote place => place.message ++ Text.ofString ": extraneous or missing \" in quoted-field"

end RecordError

namespace Record

/-- The lines of a text, each with the line feed at its end, where `line` has been read of the first
of them. A carriage return before a line feed or at the end of the text is left out. -/
def linesFrom (line : Text) : Text → List Text
  | [] => if line.isEmpty then [] else [line]
  | [13] => if line.isEmpty then [] else [line]
  | 13 :: 10 :: t => (line ++ [10]) :: linesFrom [] t
  | 10 :: t => (line ++ [10]) :: linesFrom [] t
  | b :: t => linesFrom (line ++ [b]) t

/-- A place in the lines of a text. -/
structure Cursor where
  /-- The number of the line on which the record starts. -/
  start : Nat
  /-- The number of the current line. -/
  number : Nat
  /-- The number of bytes before the place on its line, and one more. -/
  column : Nat := 1
  /-- What is left of the current line. -/
  line : Text
  /-- The lines after it. -/
  later : List Text
deriving DecidableEq, Repr

namespace Cursor

/-- The place in messages. -/
def place (c : Cursor) : RecordPlace := { start := c.start, line := c.number, column := c.column }

/-- The place `n` bytes further on. -/
def advance (c : Cursor) (n : Nat) : Cursor :=
  { c with column := c.column + n, line := c.line.drop n }

end Cursor

/-- Reads a quoted field after its first quote. The result has the place after the comma that ends
the field, when the record goes on. -/
def quotedField (start number column : Nat) (line : Text) (later : List Text) :
    Except RecordError (Text × Option Cursor) :=
  match line with
  | [] =>
    match later with
    | [] => .error (.badQuote { start, line := number, column })
    | line :: later => quotedField start (number + 1) 1 line later
  | 34 :: 34 :: line =>
    (quotedField start number (column + 2) line later).map fun (field, c) => (34 :: field, c)
  | 34 :: 44 :: line => .ok ([], some { start, number, column := column + 2, line, later })
  | [34] => .ok ([], none)
  | [34, 10] => .ok ([], none)
  | 34 :: _ => .error (.badQuote { start, line := number, column })
  | b :: line =>
    (quotedField start number (column + 1) line later).map fun (field, c) => (b :: field, c)
termination_by (later.length, line.length)

/-- Reads a field without quotes. The result has the place after the comma that ends the field, when
the record goes on. -/
def plainField (c : Cursor) : Except RecordError (Text × Option Cursor) :=
  let field := c.line.takeWhile fun b => b ≠ 44 && b ≠ 10
  match field.idxOf? 34 with
  | some i => .error (.bareQuote (c.advance i).place)
  | none =>
    let ended := c.advance field.length
    .ok (field, if ended.line.head? = some 44 then some (ended.advance 1) else none)

/-- The fields from a place on, at most `fuel` of them. -/
def fields : Nat → Cursor → Except RecordError (List Text)
  | 0, _ => .ok []
  | fuel + 1, c => do
    let (field, rest) ← match c.line with
      | 34 :: line => quotedField c.start c.number (c.column + 1) line c.later
      | _ => plainField c
    match rest with
    | none => return [field]
    | some c => return field :: (← fields fuel c)

/-- The fields of the first record of a text that is not empty. Empty lines before it do not
count. -/
def first (t : Text) : Except RecordError (List Text) :=
  let lines := linesFrom [] t
  let number := (lines.takeWhile (· = [10])).length + 1
  match lines.drop (number - 1) with
  | [] => .error .ended
  | line :: later => fields (t.length + 1) { start := number, number, line, later }

/-- The fields of the first record. An empty text has none. -/
def read (t : Text) : Except RecordError (List Text) := if t.isEmpty then .ok [] else first t

/-- A field is written between quotes: one that could be taken for something else without them. -/
def needsQuotes (field : Text) : Bool :=
  field = Text.ofString "\\."
    || field.any (fun b => b = 44 || b = 34 || b = 10 || b = 13)
    || (Utf8.glyphs field).head?.any fun g => Text.isSpace g.code

/-- A field as it is written. -/
def writeField (field : Text) : Text :=
  if needsQuotes field then 34 :: field.flatMap (fun b => if b = 34 then [34, 34] else [b]) ++ [34]
  else field

/-- A record as it is written, without the end of its line. -/
def write (fields : List Text) : Text := Text.joinWith "," (fields.map writeField)

/-- A record that has been written and read again. -/
def reread (fields : List Text) : List Text :=
  match read (write fields) with
  | .ok fields => fields
  | .error _ => []

end Record

end ModuleSystem
