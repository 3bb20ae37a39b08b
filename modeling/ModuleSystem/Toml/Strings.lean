import ModuleSystem.Text.Quoted

/-!
# Strings in TOML

A string stands between single or double quotes, one on each side, or three when it goes on over
several lines.  Only double quotes have escapes.  A string is found first, up to its closing quotes,
and what it holds is looked at afterwards.
-/

namespace ModuleSystem

/-- What is wrong with a string. -/
inductive TomlStringError where
  | lineInBasic
  | lineInLiteral
  | openBasic
  | openLiteral
  | openLongBasic
  | openLongLiteral
  | loneBackslash
  | loneReturn
  /-- Six closing quotes or more. -/
  | extraQuotes (quote : UInt8)
  /-- A character that may not stand in a string without escapes. -/
  | badText
  /-- A character that may not stand in a string with escapes. -/
  | badByte (byte : UInt8)
  /-- A character that may not stand between single quotes. -/
  | badLiteral
  | badEscape (letter : UInt8)
  | shortEscape (needed found : Nat)
  | badDigit
  | badCodePoint
deriving DecidableEq, Repr

/-- The wording of an error. -/
def TomlStringError.message : TomlStringError → Text
  | lineInBasic => "basic strings cannot have new lines"
  | lineInLiteral => "literal strings cannot have new lines"
  | openBasic => "basic string not terminated by \""
  | openLiteral => "unterminated literal string"
  | openLongBasic => "multiline basic string not terminated by \"\"\""
  | openLongLiteral => "multiline literal string not terminated by '''"
  | loneBackslash => "need a character after \\"
  | loneReturn => "need a \\n after \\r"
  | extraQuotes quote =>
    [quote, quote, quote] ++ Text.ofString " not allowed in multiline "
      ++ Text.ofString (if quote = 34 then "basic" else "literal") ++ Text.ofString " string"
  | badText => "invalid UTF-8"
  | badByte b => "invalid character " ++ Quoted.codePoint b.toNat
  | badLiteral => "invalid character"
  | badEscape b => "invalid escaped character " ++ Quoted.codePoint b.toNat
  | shortEscape needed found =>
    "unicode point needs " ++ Text.ofNat needed ++ Text.ofString " character, not "
      ++ Text.ofNat found
  | badDigit => "non-hex character"
  | badCodePoint => "escape sequence is invalid Unicode code point"

namespace Toml

/-- A character that may stand in a document: no control character but tabs and line ends, and no
byte that starts no valid sequence. -/
def isAllowed (g : Glyph) : Bool :=
  !Utf8.isInvalid g && (32 ≤ g.code || g.code = 9 || g.code = 10 || g.code = 13) && g.code ≠ 127

/-- All characters of a text may stand in a document. -/
def isAllowedText (t : Text) : Bool := (Utf8.glyphs t).all isAllowed

/-! ### Finding the end -/

/-- A string that has been found: what stands between its quotes, and what follows it. -/
structure Found where
  body : Text
  rest : Text
deriving DecidableEq, Repr

/-- The string found with more text before it. -/
def Found.after (text : Text) (f : Found) : Found := { f with body := text ++ f.body }

/-- Finds the end of a string after its double quote. -/
def findBasic : Text → Except TomlStringError Found
  | [] => .error .openBasic
  | 34 :: t => .ok ⟨[], t⟩
  | 10 :: _ => .error .lineInBasic
  | 13 :: _ => .error .lineInBasic
  | [92] => .error .loneBackslash
  | 92 :: b :: t => (findBasic t).map (·.after [92, b])
  | b :: t => (findBasic t).map (·.after [b])

/-- The end of a string of several lines, after three closing quotes. Two more of them may stand
there, which belong to the string. -/
def closeLong (quote : UInt8) (t : Text) : Except TomlStringError Found :=
  let extra := t.takeWhile (· = quote)
  if 2 < extra.length then .error (.extraQuotes quote) else .ok ⟨extra, t.drop extra.length⟩

/-- Finds the end of a string of several lines after its double quotes. -/
def findLongBasic : Text → Except TomlStringError Found
  | [] => .error .openLongBasic
  | 34 :: 34 :: 34 :: t => closeLong 34 t
  | [92] => .error .loneBackslash
  | 92 :: b :: t => (findLongBasic t).map (·.after [92, b])
  | 13 :: 10 :: t => (findLongBasic t).map (·.after [13, 10])
  | 13 :: _ => .error .loneReturn
  | b :: t => (findLongBasic t).map (·.after [b])

/-- What stands before the end of a string of several lines in single quotes, and how the string
goes on there. -/
def splitLongLiteral : Text → Text × Except TomlStringError Found
  | [] => ([], .error .openLongLiteral)
  | 39 :: 39 :: 39 :: t => ([], closeLong 39 t)
  | 13 :: 10 :: t =>
    let (body, ending) := splitLongLiteral t
    (13 :: 10 :: body, ending)
  | 13 :: _ => ([], .error .loneReturn)
  | b :: t =>
    let (body, ending) := splitLongLiteral t
    (b :: body, ending)

/-- The text without a line end at its beginning. -/
def dropLineEnd : Text → Text
  | 10 :: t => t
  | 13 :: 10 :: t => t
  | t => t

/-! ### Escapes -/

/-- The letters of escapes that stand for one character. -/
def escapedByte? (letter : UInt8) : Option UInt8 :=
  [(34, 34), (92, 92), (98, 8), (102, 12), (110, 10), (114, 13), (116, 9), (101, 27)].lookup letter

/-- The code point of some hexadecimal digits. -/
def codePoint (digits : Text) : Except TomlStringError Nat :=
  match digits.mapM Ascii.hexValue? with
  | none => .error .badDigit
  | some ds =>
    let c := ds.foldl (fun c d => c * 16 + d.toNat) 0
    if Utf8.isSurrogate c || 0x10FFFF < c then .error .badCodePoint else .ok c

/-- The number of digits after the letter of an escape for a code point. -/
def escapeWidth? (letter : UInt8) : Option Nat := [(117, 4), (85, 8)].lookup letter

/-- Nothing but blanks follows before the end of the line. -/
def endsLine : Text → Bool
  | 32 :: t => endsLine t
  | 9 :: t => endsLine t
  | 10 :: _ => true
  | 13 :: 10 :: _ => true
  | _ => false

/-- The text of a body with escapes, of which the first `skip` bytes are already read. In a string
of several lines a backslash at the end of a line takes away the white space that follows, and digits
are looked for up to the closing quotes `tail`. -/
def unescape (long : Bool) (tail : Text) : Nat → Text → Except TomlStringError Text
  | _, [] => .ok []
  | skip + 1, _ :: t => unescape long tail skip t
  | 0, 92 :: t =>
    if long && endsLine t then
      unescape long tail (t.takeWhile fun b => b = 10 || b = 13 || b = 32 || b = 9).length t
    else
      let letter := t.headD 0
      match escapedByte? letter, escapeWidth? letter with
      | some b, _ => (unescape long tail 1 t).map (b :: ·)
      | none, some width => do
        let digits := (t.drop 1 ++ tail).take width
        if digits.length < width then .error (.shortEscape width digits.length)
        else
          let c ← codePoint digits
          return Utf8.encode c ++ (← unescape long tail (width + 1) t)
      | none, none => .error (.badEscape letter)
  | 0, b :: t =>
    match Utf8.glyphs ((b :: t).take 4) with
    | g :: _ =>
      if isAllowed g then (unescape long tail (g.width - 1) t).map (g.bytes ++ ·)
      else .error (.badByte b)
    | [] => .error (.badByte b)

/-- The text of a body in double quotes. -/
def basicText (long : Bool) (body : Text) : Except TomlStringError Text :=
  if body.elem 92 then unescape long (if long then [34, 34, 34] else []) 0 body
  else if isAllowedText body then .ok body
  else .error .badText

/-! ### Strings -/

/-- Reads a string after its double quote. -/
def basicString (t : Text) : Except TomlStringError (Text × Text) := do
  let found ← findBasic t
  return (← basicText false found.body, found.rest)

/-- Reads a string of several lines after its double quotes. -/
def longBasicString (t : Text) : Except TomlStringError (Text × Text) := do
  let found ← findLongBasic t
  return (← basicText true (dropLineEnd found.body), found.rest)

/-- Reads a string after its single quote. -/
def literalString (t : Text) : Except TomlStringError (Text × Text) :=
  let (body, rest) := t.span fun b => b ≠ 39 && b ≠ 10 && b ≠ 13
  if !isAllowedText body then .error .badLiteral
  else
    match rest with
    | [] => .error .openLiteral
    | 39 :: rest => .ok (body, rest)
    | _ => .error .lineInLiteral

/-- Reads a string of several lines after its single quotes. -/
def longLiteralString (t : Text) : Except TomlStringError (Text × Text) :=
  let (body, ending) := splitLongLiteral t
  if !isAllowedText body then .error .badLiteral
  else ending.map fun found => (dropLineEnd (body ++ found.body), found.rest)

/-- Reads a string of either kind that may go on over several lines. -/
def string (t : Text) : Except TomlStringError (Text × Text) :=
  match t with
  | 34 :: 34 :: 34 :: t => longBasicString t
  | 34 :: t => basicString t
  | 39 :: 39 :: 39 :: t => longLiteralString t
  | t => literalString (t.drop 1)

end Toml

end ModuleSystem
