import ModuleSystem.Source
import ModuleSystem.Text.Quoted
import ModuleSystem.Unicode.Identifier

/-!
# Tokens

The tokens of a script, the words that are reserved, and the characters that identifiers and the
space between tokens are made of.
-/

namespace ModuleSystem

/-- The kinds of tokens. -/
inductive TokenKind where
  | endOfFile
  /-- A character that starts no token. -/
  | invalid
  | hashbang
  /-- A template without substitutions. -/
  | template
  | number
  | string
  | bigInteger
  | templateHead
  | templateMiddle
  | templateTail
  | regExp
  | ampersand
  | ampersandAmpersand
  | asterisk
  | asteriskAsterisk
  | atSign
  | bar
  | barBar
  | caret
  | closeBrace
  | closeBracket
  | closeParen
  | colon
  | comma
  | dot
  | dotDotDot
  | equalsEquals
  | equalsEqualsEquals
  | equalsGreaterThan
  | exclamation
  | exclamationEquals
  | exclamationEqualsEquals
  | greaterThan
  | greaterThanEquals
  | greaterThanGreaterThan
  | greaterThanGreaterThanGreaterThan
  | lessThan
  | lessThanEquals
  | lessThanLessThan
  | minus
  | minusMinus
  | openBrace
  | openBracket
  | openParen
  | percent
  | plus
  | plusPlus
  | question
  | questionDot
  | questionQuestion
  | semicolon
  | slash
  | tilde
  | ampersandAmpersandAssign
  | ampersandAssign
  | asteriskAsteriskAssign
  | asteriskAssign
  | barBarAssign
  | barAssign
  | caretAssign
  | assign
  | greaterThanGreaterThanAssign
  | greaterThanGreaterThanGreaterThanAssign
  | lessThanLessThanAssign
  | minusAssign
  | percentAssign
  | plusAssign
  | questionQuestionAssign
  | slashAssign
  /-- A name that begins with a number sign. -/
  | privateName
  | identifier
  /-- A reserved word that is spelled with an escape. -/
  | escapedKeyword
  | kwBreak
  | kwCase
  | kwCatch
  | kwClass
  | kwConst
  | kwContinue
  | kwDebugger
  | kwDefault
  | kwDelete
  | kwDo
  | kwElse
  | kwEnum
  | kwExport
  | kwExtends
  | kwFalse
  | kwFinally
  | kwFor
  | kwFunction
  | kwIf
  | kwImport
  | kwIn
  | kwInstanceof
  | kwNew
  | kwNull
  | kwReturn
  | kwSuper
  | kwSwitch
  | kwThis
  | kwThrow
  | kwTrue
  | kwTry
  | kwTypeof
  | kwVar
  | kwVoid
  | kwWhile
  | kwWith
deriving DecidableEq, Repr, Inhabited

namespace TokenKind

/-- A table of spellings. -/
def table (rows : List (String × TokenKind)) : List (Text × TokenKind) :=
  rows.map fun (s, k) => (Text.ofString s, k)

/-- The reserved words. -/
def keywords : List (Text × TokenKind) := table
  [("break", kwBreak), ("case", kwCase), ("catch", kwCatch), ("class", kwClass),
    ("const", kwConst), ("continue", kwContinue), ("debugger", kwDebugger),
    ("default", kwDefault), ("delete", kwDelete), ("do", kwDo), ("else", kwElse),
    ("enum", kwEnum), ("export", kwExport), ("extends", kwExtends), ("false", kwFalse),
    ("finally", kwFinally), ("for", kwFor), ("function", kwFunction), ("if", kwIf),
    ("import", kwImport), ("in", kwIn), ("instanceof", kwInstanceof), ("new", kwNew),
    ("null", kwNull), ("return", kwReturn), ("super", kwSuper), ("switch", kwSwitch),
    ("this", kwThis), ("throw", kwThrow), ("true", kwTrue), ("try", kwTry),
    ("typeof", kwTypeof), ("var", kwVar), ("void", kwVoid), ("while", kwWhile),
    ("with", kwWith)]

/-- The spellings of punctuation, every spelling before its own beginnings. -/
def punctuators : List (Text × TokenKind) := table
  [(">>>=", greaterThanGreaterThanGreaterThanAssign),
    ("&&=", ampersandAmpersandAssign), ("**=", asteriskAsteriskAssign),
    ("||=", barBarAssign), ("...", dotDotDot), ("===", equalsEqualsEquals),
    ("!==", exclamationEqualsEquals), (">>>", greaterThanGreaterThanGreaterThan),
    (">>=", greaterThanGreaterThanAssign), ("<<=", lessThanLessThanAssign),
    ("??=", questionQuestionAssign),
    ("&&", ampersandAmpersand), ("&=", ampersandAssign), ("**", asteriskAsterisk),
    ("*=", asteriskAssign), ("||", barBar), ("|=", barAssign), ("^=", caretAssign),
    ("==", equalsEquals), ("=>", equalsGreaterThan), ("!=", exclamationEquals),
    (">=", greaterThanEquals), (">>", greaterThanGreaterThan), ("<=", lessThanEquals),
    ("<<", lessThanLessThan), ("--", minusMinus), ("-=", minusAssign), ("%=", percentAssign),
    ("++", plusPlus), ("+=", plusAssign), ("?.", questionDot), ("??", questionQuestion),
    ("/=", slashAssign),
    ("&", ampersand), ("*", asterisk), ("@", atSign), ("|", bar), ("^", caret),
    ("\x7d", closeBrace), ("]", closeBracket), (")", closeParen), (":", colon), (",", comma),
    (".", dot), ("!", exclamation), (">", greaterThan), ("<", lessThan), ("-", minus),
    ("\x7b", openBrace), ("[", openBracket), ("(", openParen), ("%", percent), ("+", plus),
    ("?", question), (";", semicolon), ("/", slash), ("~", tilde), ("=", assign)]

/-- The spelling of a kind that has only one. -/
def spelling? (k : TokenKind) : Option Text :=
  ((punctuators ++ keywords).find? (·.2 == k)).map (·.1)

/-- The kind in the words of a message. -/
def description (k : TokenKind) : Text :=
  match k.spelling? with
  | some s => Quoted.display s
  | none =>
    match k with
    | .endOfFile => "end of file"
    | .hashbang => "hashbang comment"
    | .template | .templateHead | .templateMiddle | .templateTail => "template literal"
    | .number => "number"
    | .string => "string"
    | .bigInteger => "bigint"
    | .regExp => "regular expression"
    | .privateName => "private identifier"
    | .identifier => "identifier"
    | .escapedKeyword => "escaped keyword"
    | _ => "syntax error"

/-- A reserved word. -/
def isKeyword (k : TokenKind) : Bool := TokenKind.kwBreak.ctorIdx ≤ k.ctorIdx

/-- The equals sign or a compound assignment. -/
def isAssign (k : TokenKind) : Bool :=
  TokenKind.ampersandAmpersandAssign.ctorIdx ≤ k.ctorIdx
    && k.ctorIdx ≤ TokenKind.slashAssign.ctorIdx

/-- An identifier or a reserved word, with or without escapes. -/
def isName (k : TokenKind) : Bool := TokenKind.identifier.ctorIdx ≤ k.ctorIdx

end TokenKind

/-! Classes of characters. -/

namespace CodePoint

/-- A character that may begin an identifier. -/
def isIdentifierStart (c : Nat) : Bool :=
  if c < 0x80 then c = 36 || c = 95 || (65 ≤ c && c ≤ 90) || (97 ≤ c && c ≤ 122)
  else Unicode.identifierStart.mem c

/-- A character that may continue an identifier. -/
def isIdentifierPart (c : Nat) : Bool :=
  if c < 0x80 then isIdentifierStart c || (48 ≤ c && c ≤ 57)
  else Unicode.identifierStart.mem c || Unicode.identifierMark.mem c

/-- White space other than line terminators. -/
def isBlank (c : Nat) : Bool :=
  c = 9 || c = 11 || c = 12 || c = 0xFEFF || Unicode.spaceSeparator.mem c

/-- A decimal digit. -/
def isDigit (c : Nat) : Bool := 48 ≤ c && c ≤ 57

/-- The value of a hexadecimal digit. -/
def hexValue? (c : Nat) : Option Nat :=
  if 48 ≤ c && c ≤ 57 then some (c - 48)
  else if 97 ≤ c && c ≤ 102 then some (c - 87)
  else if 65 ≤ c && c ≤ 70 then some (c - 55)
  else none

/-- A hexadecimal digit. -/
def isHex (c : Nat) : Bool := (hexValue? c).isSome

end CodePoint

/-- The text is an identifier or a reserved word. -/
def isIdentifier (t : Text) : Bool :=
  match Utf8.glyphs t with
  | [] => false
  | g :: gs =>
    CodePoint.isIdentifierStart g.code && gs.all fun h => CodePoint.isIdentifierPart h.code

/-- A token of a source. -/
structure Token where
  kind : TokenKind
  start : Nat
  /-- The offset after its last byte. -/
  stop : Nat
  /-- The end of the token before it. -/
  prevStop : Nat
  /-- A line terminator stands before it, or it is the first token. -/
  newlineBefore : Bool
  /-- The bytes it is made of. -/
  raw : Text
  /-- The code units that a string or template stands for. -/
  units : List UInt16 := []
  /-- The name that an identifier or reserved word stands for; a private name keeps its sign. -/
  name : Text := []
deriving DecidableEq, Repr, Inhabited

namespace Token

/-- The bytes that a token covers. -/
def range (t : Token) : Range := .between t.start t.stop

/-- The token is the given word, spelled without escapes, and no reserved one. -/
def isWord (t : Token) (word : Text) : Bool := t.kind == .identifier && t.raw == word

end Token

end ModuleSystem
