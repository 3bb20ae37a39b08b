import ModuleSystem.Calendar
import ModuleSystem.Number.Decimal
import ModuleSystem.Yaml.Error

/-!
# Values of YAML scalars

What a scalar stands for.  A plain one may be a number, a date or a switch, by the way it looks; a
tag says what a scalar has to be.  Tags that are not standard say nothing.
-/

namespace ModuleSystem

/-- The value of a scalar. -/
inductive YamlScalar where
  | null
  | bool (value : Bool)
  | int (value : Int)
  | float (value : Binary64)
  | moment (value : Moment)
  | text (value : Text)
deriving DecidableEq, Repr

namespace YamlScalar

/-- The tag of a value. -/
def tag : YamlScalar → Text
  | null => "!!null"
  | bool _ => "!!bool"
  | int _ => "!!int"
  | float _ => "!!float"
  | moment _ => "!!timestamp"
  | text _ => "!!str"

/-- The value as the text of a key. -/
def spelling : YamlScalar → Text
  | null => []
  | bool true => "true"
  | bool false => "false"
  | int n => Text.ofInt n
  | float v => v.text
  | moment m => m.text
  | text t => t

/-- The value as it is shown to a programmer. -/
def written : YamlScalar → Text
  | null => "interface \x7b\x7d(nil)"
  | int n => if Nat.pow 2 63 ≤ n then "0x" ++ Hex.lower n.toNat else Text.ofInt n
  | float v => v.briefText
  | text t => Quoted.display t
  | v => v.spelling

end YamlScalar

namespace Yaml

/-! ### Moments -/

/-- A number of one or two digits, and what follows it. -/
def shortNumber? : Text → Option (Nat × Text)
  | a :: b :: t =>
    if !Ascii.isDigit a then none
    else if Ascii.isDigit b then some (Decimal.number [a, b], t)
    else some (Decimal.number [a], b :: t)
  | [a] => if Ascii.isDigit a then some (Decimal.number [a], []) else none
  | [] => none

/-- A number of one or two digits below a bound, after a sign. -/
def fieldAfter? (sign : UInt8) (bound : Nat) (t : Text) : Option (Nat × Text) :=
  match t with
  | b :: t =>
    if b ≠ sign then none
    else
      match shortNumber? t with
      | some (n, t) => if n < bound then some (n, t) else none
      | none => none
  | [] => none

/-- The day at the beginning of a text. The year has four digits. -/
def date? (t : Text) : Option (Date × Text) := do
  let year := t.takeWhile Ascii.isDigit
  if year.length ≠ 4 then none
  else
    let (month, t) ← fieldAfter? 45 13 (t.drop 4)
    let (day, t) ← fieldAfter? 45 100 t
    if month = 0 then none else some (⟨Decimal.number year, month, day⟩, t)

/-- The time of day at the beginning of a text. -/
def clock? (t : Text) : Option (Clock × Text) := do
  let (hour, t) ← shortNumber? t
  if 24 ≤ hour then none
  else
    let (minute, t) ← fieldAfter? 58 60 t
    let (second, t) ← fieldAfter? 58 60 t
    match t with
    | b :: rest =>
      let ds := rest.takeWhile Ascii.isDigit
      if (b = 46 || b = 44) && !ds.isEmpty then
        let counted := ds.take 9
        let nanosecond := Decimal.number counted * Nat.pow 10 (9 - counted.length)
        some ({ hour, minute, second, nanosecond }, rest.drop ds.length)
      else some ({ hour, minute, second }, t)
    | [] => some ({ hour, minute, second }, [])

/-- The distance from universal time, in minutes. -/
def zone? : Text → Option Int
  | [90] => some 0
  | [sign, a, b, 58, c, d] =>
    let (hours, minutes) := (Decimal.number [a, b], Decimal.number [c, d])
    if !([a, b, c, d].all Ascii.isDigit) || 24 < hours || 60 < minutes then none
    else if sign = 43 then some (hours * 60 + minutes)
    else if sign = 45 then some (-(hours * 60 + minutes))
    else none
  | _ => none

/-- The moment of a text: a day, and a time of day after a letter with a distance from universal
time or after blanks without one. -/
def moment? (t : Text) : Option Moment := do
  let (date, t) ← date? t
  let m : Moment ← match t with
    | [] => some { date := date }
    | b :: t =>
      if b = 84 || b = 116 then
        let (clock, t) ← clock? t
        let offset ← zone? t
        some { date := date, clock := clock, offset := offset }
      else if b = 32 then
        let (clock, t) ← clock? (t.dropWhile (· = 32))
        if t.isEmpty then some { date := date, clock := clock } else none
      else none
  if m.date.isValid then some m else none

/-! ### Numbers -/

/-- The words that stand for single values. -/
def constants : List (Text × YamlScalar) :=
  let infinity (negative : Bool) : YamlScalar := .float (.number negative .infinite)
  [("", .null), ("~", .null), ("null", .null), ("Null", .null), ("NULL", .null),
    ("true", .bool true), ("True", .bool true), ("TRUE", .bool true),
    ("false", .bool false), ("False", .bool false), ("FALSE", .bool false),
    (".nan", .float .nan), (".NaN", .float .nan), (".NAN", .float .nan),
    (".inf", infinity false), (".Inf", infinity false), (".INF", infinity false),
    ("+.inf", infinity false), ("+.Inf", infinity false), ("+.INF", infinity false),
    ("-.inf", infinity true), ("-.Inf", infinity true), ("-.INF", infinity true)]

/-- A whole number that takes 64 bits, with or without a sign. -/
def whole? (t : Text) (base : Option Nat := none) : Option Int :=
  match Numeral.read t base, Numeral.magnitude t base with
  | .ok n, _ => some n
  | .error _, .ok n => some n
  | .error _, .error _ => none

/-- A whole number after the letter of a base, before which a minus sign may stand. -/
def lettered? (letter : UInt8) (base : Nat) (t : Text) : Option Int :=
  match Text.dropStart? [48, letter] t, Text.dropStart? [45, 48, letter] t with
  | some ds, _ => whole? ds (some base)
  | none, some ds => (Numeral.read (45 :: ds) (some base)).toOption
  | none, none => none

/-- The number of a text without underscores. -/
def number? (t : Text) : Option YamlScalar :=
  (whole? t).map .int
    <|> (Decimal.readFinite? t).map .float
    <|> (lettered? 98 2 t).map .int
    <|> (lettered? 111 8 t).map .int

/-- What a text stands for by the way it looks. Moments are looked for only where they may stand. -/
def looksLike (moments : Bool) (t : Text) : YamlScalar :=
  let found : Option YamlScalar :=
    match constants.lookup t, t with
    | some v, _ => some v
    | none, b :: _ =>
      if b = 46 then (Decimal.readFinite? t).map .float
      else if Ascii.isDigit b || b = 43 || b = 45 then
        (if moments then (moment? t).map .moment else none)
          <|> number? (t.filter (· ≠ 95))
      else none
    | none, [] => none
  found.getD (.text t)

/-! ### Binary data -/

/-- The value of a digit in base 64. -/
def base64Value? (b : UInt8) : Option Nat :=
  if 65 ≤ b && b ≤ 90 then some (b.toNat - 65)
  else if 97 ≤ b && b ≤ 122 then some (b.toNat - 71)
  else if 48 ≤ b && b ≤ 57 then some (b.toNat + 4)
  else if b = 43 then some 62
  else if b = 47 then some 63
  else none

/-- The bytes of digits in base 64, four for each three bytes. At the end signs fill up the last
four. -/
def base64? : Text → Option Text
  | [] => some []
  | [a, b, 61, 61] => do
    let n := (← base64Value? a) * 64 + (← base64Value? b)
    return [(n / 16).toUInt8]
  | [a, b, c, 61] => do
    let n := ((← base64Value? a) * 64 + (← base64Value? b)) * 64 + (← base64Value? c)
    return [(n / 1024).toUInt8, (n / 4).toUInt8]
  | a :: b :: c :: d :: t => do
    let n := (((← base64Value? a) * 64 + (← base64Value? b)) * 64 + (← base64Value? c)) * 64
      + (← base64Value? d)
    return (n / 65536).toUInt8 :: (n / 256).toUInt8 :: n.toUInt8 :: (← base64? t)
  | _ => none

/-! ### Tags -/

/-- The tags that say what a scalar has to be. -/
def checkedTags : List Text := ["!!bool", "!!int", "!!float", "!!null", "!!timestamp"]

/-- The value of a text that has been given a tag. -/
def tagged (tag t : Text) : Except YamlError YamlScalar :=
  if tag = Text.ofString "!!binary" then
    match base64? (t.filter fun b => b ≠ 10 && b ≠ 13) with
    | some bytes => .ok (.text bytes)
    | none => .error .badBinary
  else if !checkedTags.contains tag then .ok (.text t)
  else
    match looksLike (tag = Text.ofString "!!timestamp") t with
    | .int n =>
      if tag = Text.ofString "!!int" then .ok (.int n)
      else if tag = Text.ofString "!!float" && n < Nat.pow 2 63 then .ok (.float (Binary64.ofInt n))
      else .error (.wrongTag "!!int" t tag)
    | v => if v.tag = tag then .ok v else .error (.wrongTag v.tag t tag)

end Yaml

end ModuleSystem
