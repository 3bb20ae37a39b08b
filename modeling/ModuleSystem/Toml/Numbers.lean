import ModuleSystem.Number.Decimal

/-!
# Numbers in TOML

The numbers that the words of a document stand for.  A word has been cut out by the bytes that may
stand in numbers, so it may still be no number at all.
-/

namespace ModuleSystem

/-- What is wrong with a number. -/
inductive TomlNumberError where
  | underscoreFirst
  | underscoreLast
  | underscoreTwice
  | underscoreBeforeExponent
  | underscoreAfterExponent
  | underscoreBeforePoint
  | underscoreAfterPoint
  | leadingZero
  | pointFirst
  | pointLast
  | secondPoint
  | pointWithoutDigitBefore
  | pointWithoutDigitAfter
  | leadingZeros
  /-- No whole number in a base that has the name. -/
  | integer (base word : Text) (e : NumeralError)
  | float (word : Text) (e : NumeralError)
deriving DecidableEq, Repr

/-- The wording of an error. -/
def TomlNumberError.message : TomlNumberError → Text
  | underscoreFirst => "number cannot start with underscore"
  | underscoreLast => "number cannot end with underscore"
  | underscoreTwice => "number must have at least one digit between underscores"
  | underscoreBeforeExponent => "cannot have underscore before exponent"
  | underscoreAfterExponent => "cannot have underscore after exponent"
  | underscoreBeforePoint => "cannot have underscore before decimal point"
  | underscoreAfterPoint => "cannot have underscore after decimal point"
  | leadingZero => "leading zero not allowed on decimal number"
  | pointFirst => "float cannot start with a dot"
  | pointLast => "float cannot end with a dot"
  | secondPoint => "float can have at most one decimal point"
  | pointWithoutDigitBefore => "float decimal point must be preceded by a digit"
  | pointWithoutDigitAfter => "float decimal point must be followed by a digit"
  | leadingZeros => "float integer part cannot have leading zeroes"
  | integer base word e =>
    "couldn't parse " ++ base ++ Text.ofString " number: " ++ e.message "Int" word
  | float word e => "unable to parse float: " ++ e.message "Float" word

namespace Toml

/-! ### Whole numbers -/

/-- The text after its first underscore without further ones, between which something has to
stand. `before` tells that something does. -/
def dropUnderscores (before : Bool) : Text → Except TomlNumberError Text
  | [] => .ok []
  | 95 :: t => if before then dropUnderscores false t else .error .underscoreTwice
  | b :: t => (dropUnderscores true t).map (b :: ·)

/-- The digits of a whole number without underscores. -/
def integerDigits (t : Text) : Except TomlNumberError Text :=
  let unsigned := if t.head? = some 43 || t.head? = some 45 then t.drop 1 else t
  if unsigned.isEmpty then .ok t
  else if unsigned.head? = some 95 then .error .underscoreFirst
  else if t.getLast? = some 95 then .error .underscoreLast
  else
    let (first, rest) := t.span (· ≠ 95)
    (dropUnderscores false (rest.drop 1)).map (first ++ ·)

/-- The number of a word in a base. -/
def integerIn (base : Nat) (name word : Text) : Except TomlNumberError Int := do
  let ds ← integerDigits word
  match Numeral.read ds (some base) with
  | .ok n => return n
  | .error e => .error (.integer name ds e)

/-- The number of a word in base ten. -/
def decimalInteger (word : Text) : Except TomlNumberError Int := do
  let ds ← integerDigits word
  let (_, unsigned) := Numeral.sign ds
  if 1 < unsigned.length && unsigned.head? = some 48 then .error .leadingZero
  else
    match Numeral.read ds (some 10) with
    | .ok n => return n
    | .error e => .error (.integer "decimal" ds e)

/-- The number of a word. -/
def integer (word : Text) : Except TomlNumberError Int :=
  match word with
  | 48 :: 120 :: b :: t => integerIn 16 "hexadecimal" (b :: t)
  | 48 :: 98 :: b :: t => integerIn 2 "binary" (b :: t)
  | 48 :: 111 :: b :: t => integerIn 8 "octal" (b :: t)
  | word => decimalInteger word

/-! ### Floating point numbers -/

/-- The exponent letter. -/
def isExponentMark (b : UInt8) : Bool := b = 101 || b = 69

/-- The text without underscores. `before` tells that a digit came last, and `last` what did. -/
def floatDigitsFrom (before : Bool) (last : UInt8) : Text → Except TomlNumberError Text
  | [] => .ok []
  | b :: t =>
    let next := t.headD 0
    if b = 95 then
      if !before then .error .underscoreTwice
      else if isExponentMark next then .error .underscoreBeforeExponent
      else floatDigitsFrom false b t
    else if b = 43 || b = 45 then (floatDigitsFrom false b t).map (b :: ·)
    else if isExponentMark b then
      if next = 95 then .error .underscoreAfterExponent
      else (floatDigitsFrom before b t).map (b :: ·)
    else if b = 46 then
      if next = 95 then .error .underscoreAfterPoint
      else if last = 95 then .error .underscoreBeforePoint
      else (floatDigitsFrom before b t).map (b :: ·)
    else (floatDigitsFrom true b t).map (b :: ·)

/-- The digits of a floating point number without underscores. -/
def floatDigits (t : Text) : Except TomlNumberError Text :=
  if t.head? = some 95 then .error .underscoreFirst
  else if t.getLast? = some 95 then .error .underscoreLast
  else if t.elem 95 then floatDigitsFrom false 0 t
  else .ok t

/-- What is wrong with the points of a number, where `last` comes before it. -/
def pointFault? (seen : Bool) (last : UInt8) : Text → Option TomlNumberError
  | [] => none
  | b :: t =>
    if b ≠ 46 then pointFault? seen b t
    else if seen then some .secondPoint
    else if !Ascii.isDigit last then some .pointWithoutDigitBefore
    else if !Ascii.isDigit (t.headD 0) then some .pointWithoutDigitAfter
    else pointFault? true b t

/-- The numbers that have names. -/
def namedFloat? (t : Text) : Option Binary64 :=
  let names : List (Text × Binary64) :=
    [("inf", .number false .infinite), ("+inf", .number false .infinite),
      ("-inf", .number true .infinite), ("nan", .nan), ("+nan", .nan), ("-nan", .nan)]
  names.lookup t

/-- The floating point number of a word. -/
def float (word : Text) : Except TomlNumberError Binary64 :=
  match namedFloat? word with
  | some v => .ok v
  | none => do
    let ds ← floatDigits word
    if ds.head? = some 46 then .error .pointFirst
    else if ds.getLast? = some 46 then .error .pointLast
    else
      match pointFault? false 0 ds with
      | some e => .error e
      | none =>
        match (Numeral.sign ds).2 with
        | 48 :: d :: _ => if Ascii.isDigit d then .error .leadingZeros else pure ()
        | _ => pure ()
        match Decimal.read? ds with
        | some (.number _ .infinite) => .error (.float ds .tooLarge)
        | some v => return v
        | none => .error (.float ds .malformed)

end Toml

end ModuleSystem
