import ModuleSystem.Diagnostic
import ModuleSystem.Token

/-!
# Faults of a source

Everything that reading a source can object to, as causes.  The wording and the place of each are
given by `Fault.diagnostic`.
-/

namespace ModuleSystem

/-- What is wrong with a source. -/
inductive Fault where
  /-- The character at an offset, or the end of the source, cannot stand there. -/
  | unexpectedCharacter (offset : Nat)
  /-- Reading would never get past the character at an offset, which starts no token. -/
  | endless (offset : Nat)
  | unterminatedComment (offset : Nat)
  | unterminatedString (offset : Nat)
  | commentInJson (range : Range)
  | quoteInJson (range : Range)
  | trailingCommaInJson (range : Range)
  | duplicateKey (range : Range) (key : Text)
  | escapeOutOfRange (range : Range)
  | invalidIdentifier (range : Range) (name : Text)
  /-- Another token was needed than the one found. -/
  | expected (wanted : Text) (found : Token)
  | unexpected (found : Token)
  | expectedName (range : Range)
  | expectedAs (range : Range)
  | unexpectedImport (range : Range)
  | returnOutsideFunction (range : Range)
  | yieldOutsideFunction (range : Range)
  | awaitOutsideFunction (range : Range)
  | reservedBinding (range : Range) (name : Text)
  | unpairedSurrogate (range : Range)
  | unsupportedAttribute (range : Range) (key : Text)
  | unsupportedAttributeType (range : Range) (value : Text)
  | duplicateExport (range : Range) (name : Text)
  | assignedImport (range : Range) (name : Text)
deriving DecidableEq, Repr

namespace Fault

/-- A token as a message names it. -/
def found (s : Source) (t : Token) : Text :=
  if t.start = s.contents.length then "end of file" else Quoted.display t.raw

/-- The character at an offset as a message names it. -/
def character (s : Source) (offset : Nat) : Text :=
  match s.contents.drop offset with
  | [] => "Unexpected end of file"
  | t =>
    let c := (Utf8.decode t).1
    if c < 0x20 then ("Syntax error \"\\x" : Text) ++ Hex.digits Hex.upperDigit 2 c ++ "\""
    else if 0x80 ≤ c then ("Syntax error \"\\u\x7b" : Text) ++ Hex.lower c ++ "\x7d\""
    else if c = 34 then "Syntax error '\"'"
    else ("Syntax error \"" : Text) ++ [c.toUInt8] ++ "\""

/-- The place of a fault. -/
def range : Fault → Range
  | unexpectedCharacter offset | endless offset | unterminatedComment offset
  | unterminatedString offset => ⟨offset, 0⟩
  | expected _ t | unexpected t => t.range
  | commentInJson r | quoteInJson r | trailingCommaInJson r | duplicateKey r _ | escapeOutOfRange r
  | invalidIdentifier r _ | expectedName r | expectedAs r | unexpectedImport r
  | returnOutsideFunction r | yieldOutsideFunction r | awaitOutsideFunction r | reservedBinding r _
  | unpairedSurrogate r | unsupportedAttribute r _ | unsupportedAttributeType r _
  | duplicateExport r _ | assignedImport r _ => r

/-- The wording of a fault. -/
def message (s : Source) : Fault → Text
  | unexpectedCharacter offset | endless offset => character s offset
  | unterminatedComment _ => "Expected \"*/\" to terminate multi-line comment"
  | unterminatedString _ => "Unterminated string literal"
  | commentInJson _ => "JSON does not support comments"
  | quoteInJson _ => "JSON strings must use double quotes"
  | trailingCommaInJson _ => "JSON does not support trailing commas"
  | duplicateKey _ key => "Duplicate key: " ++ Quoted.display key
  | escapeOutOfRange _ => "Unicode escape sequence is out of range"
  | invalidIdentifier _ name => "Invalid identifier: " ++ Quoted.display name
  | expected wanted t => "Expected " ++ wanted ++ " but found " ++ found s t
  | unexpected t => "Unexpected " ++ found s t
  | expectedName r => "Expected identifier but found " ++ Quoted.display (s.textOf r)
  | expectedAs r => "Expected \"as\" after " ++ s.textOf r
  | unexpectedImport _ => "Unexpected \"import\""
  | returnOutsideFunction _ => "A return statement cannot be used here"
  | yieldOutsideFunction _ => "Cannot use \"yield\" outside a generator function"
  | awaitOutsideFunction _ => "Top-level await is not supported"
  | reservedBinding _ name => "Cannot use " ++ Quoted.display name ++ " as an identifier here"
  | unpairedSurrogate _ => "An export name cannot include an unpaired surrogate"
  | unsupportedAttribute _ key => "Import attribute " ++ Quoted.display key ++ " is not supported"
  | unsupportedAttributeType _ value =>
    "Import attribute type " ++ Quoted.display value ++ " is not supported"
  | duplicateExport _ name => "Multiple exports with the same name " ++ Quoted.display name
  | assignedImport _ name => "Cannot assign to import " ++ Quoted.display name

/-- A repeated key is only worth a warning. -/
def severity : Fault → Severity
  | duplicateKey .. => .warning
  | _ => .error

/-- The diagnostic of a fault. -/
def diagnostic (s : Source) (f : Fault) : Diagnostic :=
  ⟨f.severity, f.message s, s.locate f.range.start f.range.len⟩

end Fault

end ModuleSystem
