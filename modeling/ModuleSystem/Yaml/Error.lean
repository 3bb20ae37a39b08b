import ModuleSystem.Text.Quoted

/-!
# Errors in YAML documents

A document may fail on four levels: its bytes are no text, its text has no tokens, its tokens have
no structure, or its structure has no value.  Errors of the first level have no place, and those of the
last level are collected when they are about the kinds of values.
-/

namespace ModuleSystem

/-- A place in a document. -/
structure YamlMark where
  index : Nat := 0
  line : Nat := 0
  column : Nat := 0
deriving DecidableEq, Repr

/-! ### Bytes -/

/-- Why bytes are no text. -/
inductive YamlEncodingFault where
  | leadingByte
  | incompleteSequence
  | trailingByte
  /-- More bytes are used for a character than it needs. -/
  | overlong
  | noCharacter
  | incompleteUnit
  | loneLow
  | incompletePair
  | loneHigh
  | control
deriving DecidableEq, Repr

/-- The wording of a fault. -/
def YamlEncodingFault.message : YamlEncodingFault → Text
  | leadingByte => "invalid leading UTF-8 octet"
  | incompleteSequence => "incomplete UTF-8 octet sequence"
  | trailingByte => "invalid trailing UTF-8 octet"
  | overlong => "invalid length of a UTF-8 sequence"
  | noCharacter => "invalid Unicode character"
  | incompleteUnit => "incomplete UTF-16 character"
  | loneLow => "unexpected low surrogate area"
  | incompletePair => "incomplete UTF-16 surrogate pair"
  | loneHigh => "expected low surrogate area"
  | control => "control characters are not allowed"

/-! ### Tokens -/

/-- Why there is no token. -/
inductive YamlTokenFault where
  | unknownStart
  | depth
  | noColon
  | entryHere
  | keyHere
  | valueHere
  | unknownDirective
  | noDirectiveName
  | directiveName
  | versionPoint
  | longVersion
  | noVersion
  /-- White space has to follow. -/
  | noSpace
  /-- White space or the end of the line has to follow. -/
  | noSpaceOrEnd
  /-- A comment or the end of the line has to follow. -/
  | noLineEnd
  | anchorName
  | tagClose
  | tagStart
  | noTag
  | tagEscape
  | tagLeadingByte
  | tagTrailingByte
  | zeroIndent
  | tabInBlock
  | tabInPlain
  | documentMark
  | openQuote
  | unknownEscape
  | escapeDigits
  | escapedCode
deriving DecidableEq, Repr

/-- The deepest nesting that is read. -/
def YamlTokenFault.maxDepth : Nat := 10000

/-- The wording of a fault. -/
def YamlTokenFault.message : YamlTokenFault → Text
  | unknownStart => "found character that cannot start any token"
  | depth => "exceeded max depth of " ++ Text.ofNat maxDepth
  | noColon => "could not find expected ':'"
  | entryHere => "block sequence entries are not allowed in this context"
  | keyHere => "mapping keys are not allowed in this context"
  | valueHere => "mapping values are not allowed in this context"
  | unknownDirective => "found unknown directive name"
  | noDirectiveName => "could not find expected directive name"
  | directiveName => "found unexpected non-alphabetical character"
  | versionPoint => "did not find expected digit or '.' character"
  | longVersion => "found extremely long version number"
  | noVersion => "did not find expected version number"
  | noSpace => "did not find expected whitespace"
  | noSpaceOrEnd => "did not find expected whitespace or line break"
  | noLineEnd => "did not find expected comment or line break"
  | anchorName => "did not find expected alphabetic or numeric character"
  | tagClose => "did not find the expected '>'"
  | tagStart => "did not find expected '!'"
  | noTag => "did not find expected tag URI"
  | tagEscape => "did not find URI escaped octet"
  | tagLeadingByte => "found an incorrect leading UTF-8 octet"
  | tagTrailingByte => "found an incorrect trailing UTF-8 octet"
  | zeroIndent => "found an indentation indicator equal to 0"
  | tabInBlock => "found a tab character where an indentation space is expected"
  | tabInPlain => "found a tab character that violates indentation"
  | documentMark => "found unexpected document indicator"
  | openQuote => "found unexpected end of stream"
  | unknownEscape => "found unknown escape character"
  | escapeDigits => "did not find expected hexdecimal number"
  | escapedCode => "found invalid Unicode character escape code"

/-! ### Structure -/

/-- Why tokens have no structure. -/
inductive YamlStructureFault where
  | duplicateVersion
  | otherVersion
  | duplicateHandle
  | noDocumentStart
  | unknownHandle
  | noContent
  | noEntry
  | noKey
  | noSequenceEnd
  | noMappingEnd
deriving DecidableEq, Repr

/-- The wording of a fault. -/
def YamlStructureFault.message : YamlStructureFault → Text
  | duplicateVersion => "found duplicate %YAML directive"
  | otherVersion => "found incompatible YAML document"
  | duplicateHandle => "found duplicate %TAG directive"
  | noDocumentStart => "did not find expected <document start>"
  | unknownHandle => "found undefined tag handle"
  | noContent => "did not find expected node content"
  | noEntry => "did not find expected '-' indicator"
  | noKey => "did not find expected key"
  | noSequenceEnd => "did not find expected ',' or ']'"
  | noMappingEnd => "did not find expected ',' or '\x7d'"

/-! ### Values -/

/-- A value of the wrong kind. -/
inductive YamlTypeError where
  /-- A value with a tag, and with a text when it is a single one, stands where a value of another
  kind has to be. -/
  | mismatch (line : Nat) (tag : Text) (text : Option Text) (wanted : Text)
  | duplicateKey (line : Nat) (key : Text) (earlier : Nat)
deriving DecidableEq, Repr

/-- The wording of an error. Of a long text only the beginning is shown. -/
def YamlTypeError.message : YamlTypeError → Text
  | mismatch line tag text wanted =>
    let shown : Text := match text with
      | none => []
      | some t =>
        " `" ++ (if 10 < t.length then t.take 7 ++ Text.ofString "..." else t) ++ Text.ofString "`"
    "line " ++ Text.ofNat line ++ Text.ofString ": cannot unmarshal " ++ tag ++ shown
      ++ Text.ofString " into " ++ wanted
  | duplicateKey line key earlier =>
    "line " ++ Text.ofNat line ++ Text.ofString ": mapping key " ++ Quoted.display key
      ++ Text.ofString " already defined at line " ++ Text.ofNat earlier

/-- Why a document has no value. -/
inductive YamlError where
  | encoding (fault : YamlEncodingFault)
  /-- A fault in what begins at one place, noticed at another. -/
  | token (fault : YamlTokenFault) (start here : YamlMark)
  | structural (fault : YamlStructureFault) (start here : YamlMark)
  | unknownAnchor (name : Text)
  | selfReference (name : Text)
  /-- A text with the first tag has been given the second. -/
  | wrongTag (found text given : Text)
  | badBinary
  | excessiveReferences
  | badMerge
  | badKey (written : Text)
  /-- A key of a merged table has a kind that keys cannot have. -/
  | unorderedKey (kind : Text)
  | types (errors : List YamlTypeError)
deriving DecidableEq, Repr

namespace YamlError

/-- The line that an error is about: that of the beginning, unless that is the first line. -/
def lineOf (start here : YamlMark) : Nat := if start.line ≠ 0 then start.line else here.line

/-- The wording of an error with the number of a line, which the first line does without. -/
def onLine (line : Nat) (reason : Text) : Text :=
  if line = 0 then reason else "line " ++ Text.ofNat line ++ Text.ofString ": " ++ reason

/-- The wording of an error. The lines of structures count from zero. -/
def message (e : YamlError) : Text :=
  let reason : Text := match e with
    | encoding fault => fault.message
    | token fault start here =>
      let line := lineOf start here
      onLine (if line = 0 then 0 else line + 1) fault.message
    | structural fault start here => onLine (lineOf start here) fault.message
    | unknownAnchor name => "unknown anchor '" ++ name ++ Text.ofString "' referenced"
    | selfReference name => "anchor '" ++ name ++ Text.ofString "' value contains itself"
    | wrongTag found text given =>
      "cannot decode " ++ found ++ Text.ofString " `" ++ text ++ Text.ofString "` as a " ++ given
    | badBinary => "!!binary value contains invalid base64 data"
    | excessiveReferences => "document contains excessive aliasing"
    | badMerge => "map merge requires map or sequence of maps as the value"
    | badKey written => "invalid map key: " ++ written
    | unorderedKey kind => "runtime error: hash of unhashable type " ++ kind
    | types errors =>
      "unmarshal errors:"
        ++ (errors.flatMap fun e => Text.ofString "\n  " ++ e.message)
  "yaml: " ++ reason

end YamlError

end ModuleSystem
