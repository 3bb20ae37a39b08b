import ModuleSystem.Number.Decimal

/-!
# Durations

Lengths of time such as `1h15m` or `2.5s`, counted in nanoseconds: one number with its unit after
the other, under one sign.  Whole numbers are exact; a fraction is a floating point product and
loses what is less than a nanosecond.
-/

namespace ModuleSystem

/-- Why a text is no duration. -/
inductive DurationError where
  | malformed
  | noUnit
  | unknownUnit (unit : Text)
deriving DecidableEq, Repr

namespace Duration

/-- The units, in nanoseconds. The sign of a millionth may be the letter or the symbol. -/
def units : List (Text × Nat) :=
  [("ns", 1), ("us", 1000), ("µs", 1000), ("μs", 1000), ("ms", 1000000), ("s", 1000000000),
    ("m", 60000000000), ("h", 3600000000000)]

/-- The longest duration and the longest one backwards are near this. -/
def bound : Nat := Nat.pow 2 63

/-- A part of a duration: a number with a unit. -/
structure Part where
  whole : Text
  fraction : Text
  unit : Text
deriving DecidableEq, Repr

/-- The part that a text begins with. -/
def part (t : Text) : Part × Text :=
  let (whole, t) := t.span Ascii.isDigit
  let (fraction, t) := match t with
    | 46 :: t => t.span Ascii.isDigit
    | t => ([], t)
  let (unit, t) := t.span fun b => !Ascii.isDigit b && b ≠ 46
  ({ whole, fraction, unit }, t)

/-- The digits of a fraction as a number, and the power of ten to divide it by, of those that are
added to the digits before them. Digits that no longer fit are left out. -/
def fractionFrom : Nat → Magnitude → Text → Nat × Magnitude
  | n, scale, [] => (n, scale)
  | n, scale, b :: ds =>
    let more := n * 10 + (b.toNat - 48)
    if (bound - 1) / 10 < n || bound < more then (n, scale)
    else fractionFrom more (scale.mul (.ofNat 10)) ds

/-- The length of a fraction of a unit. -/
def fractionLength (ds : Text) (unit : Nat) : Nat :=
  let (n, scale) := fractionFrom 0 (.ofNat 1) ds
  ((Magnitude.ofNat n).mul ((Magnitude.ofNat unit).div scale)).floor?.getD 0

/-- The length of a part. -/
def Part.length (p : Part) : Except DurationError Nat :=
  let whole := Decimal.number p.whole
  if (p.whole.isEmpty && p.fraction.isEmpty) || bound < whole then .error .malformed
  else if p.unit.isEmpty then .error .noUnit
  else
    match units.lookup p.unit with
    | none => .error (.unknownUnit p.unit)
    | some unit =>
      let n := whole * unit + fractionLength p.fraction unit
      if bound < whole * unit || bound < n then .error .malformed else .ok n

/-- The length of at most `fuel` parts. -/
def parts : Nat → Nat → Text → Except DurationError Nat
  | 0, _, _ => .error .malformed
  | fuel + 1, sum, t =>
    if t.isEmpty then .ok sum
    else if !(t.head?.any fun b => Ascii.isDigit b || b = 46) then .error .malformed
    else
      let (p, t) := part t
      match p.length with
      | .error e => .error e
      | .ok n => if bound < sum + n then .error .malformed else parts fuel (sum + n) t

/-- The nanoseconds of a duration. -/
def read (t : Text) : Except DurationError Int :=
  let (negative, t) : Bool × Text := match t with
    | 45 :: t => (true, t)
    | 43 :: t => (false, t)
    | t => (false, t)
  if t = [48] then .ok 0
  else if t.isEmpty then .error .malformed
  else
    match parts (t.length + 1) 0 t with
    | .error e => .error e
    | .ok n =>
      if negative then .ok (-(n : Int)) else if n = bound then .error .malformed else .ok n

/-- A text between double quotes, with every byte that is not visible ASCII as an escape. -/
def quote (t : Text) : Text :=
  let byte (b : UInt8) : Text :=
    if b < 32 || 128 ≤ b then [92, 120] ++ Hex.digits Hex.lowerDigit 2 b.toNat
    else if b = 34 || b = 92 then [92, b]
    else [b]
  34 :: t.flatMap byte ++ [34]

end Duration

namespace DurationError

/-- The wording of an error. -/
def message (word : Text) : DurationError → Text
  | malformed => "time: invalid duration " ++ Duration.quote word
  | noUnit => "time: missing unit in duration " ++ Duration.quote word
  | unknownUnit unit =>
    "time: unknown unit " ++ Duration.quote unit ++ Text.ofString " in duration "
      ++ Duration.quote word

end DurationError

end ModuleSystem
