import ModuleSystem.Text.Quoted

/-!
# Faults in JSON texts

What is wrong with a text that is not JSON: it ends too early, or a byte stands where it must not.
-/

namespace ModuleSystem

/-- What was being read when a byte turned out to be wrong. -/
inductive JsonContext where
  | value
  | key
  | afterKey
  | afterMember
  | afterElement
  | afterTop
  | string
  | escape
  | unicodeEscape
  | number
  /-- A digit has to follow the point of a number. -/
  | point
  | exponent
  /-- One byte of a word. -/
  | word (name : Text) (expected : UInt8)
  /-- The value would be nested too deep. -/
  | depth
deriving DecidableEq, Repr

/-- The wording of a context. -/
def JsonContext.message : JsonContext → Text
  | value => "looking for beginning of value"
  | key => "looking for beginning of object key string"
  | afterKey => "after object key"
  | afterMember => "after object key:value pair"
  | afterElement => "after array element"
  | afterTop => "after top-level value"
  | string => "in string literal"
  | escape => "in string escape code"
  | unicodeEscape => "in \\u hexadecimal character escape"
  | number => "in numeric literal"
  | point => "after decimal point in numeric literal"
  | exponent => "in exponent of numeric literal"
  | word name expected =>
    "in literal " ++ name ++ Text.ofString " (expecting " ++ Quoted.displayByte expected
      ++ Text.ofString ")"
  | depth => "exceeded max depth"

/-- Why a text is not JSON. -/
inductive JsonFault where
  /-- The text ends where more has to follow. -/
  | ended
  | invalid (byte : UInt8) (context : JsonContext)
deriving DecidableEq, Repr

namespace JsonFault

/-- The fault of what comes next, in a context that no blank may interrupt. The end of a text counts
as a blank there. -/
def stopped (context : JsonContext) (rest : Text) : JsonFault := .invalid (rest.headD 32) context

/-- The wording of a fault. -/
def message : JsonFault → Text
  | ended => "unexpected end of JSON input"
  | invalid b context =>
    "invalid character " ++ Quoted.displayByte b ++ Text.ofString " " ++ context.message

end JsonFault

end ModuleSystem
