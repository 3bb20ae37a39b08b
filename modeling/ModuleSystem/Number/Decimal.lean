import ModuleSystem.Number.Binary64
import ModuleSystem.Number.Numeral

/-!
# Decimals

Floating point numbers in decimal notation.  A number is written with the fewest digits that read
back as the same number, and of those with the digits nearest to it, the last of them even when two
are equally near; no exponent is used, however large or small the number is.
-/

namespace ModuleSystem

namespace Magnitude

/-- The power of ten with an exponent of either sign, as a quotient. -/
def tenPow (exponent : Int) : Nat × Nat :=
  if 0 ≤ exponent then (Nat.pow 10 exponent.toNat, 1) else (1, Nat.pow 10 (-exponent).toNat)

/-- The floating point number nearest to `digits * 10 ^ exponent`. -/
def ofDecimal (digits : Nat) (exponent : Int) : Magnitude :=
  let top : Int := exponent + (Nat.toDigits 10 digits).length
  if digits = 0 || top < -400 then .finite 0 minExponent
  else if 400 < top then .infinite
  else
    let (n, d) := tenPow exponent
    ofRatio (digits * n) d

/-! ### The shortest decimal -/

/-- The numbers that are rounded to `significand * 2 ^ exponent` lie between these two, in units of
a quarter of the last binary place. Below a power of two the next number is only half as far
away. -/
def interval (significand : Nat) (exponent : Int) : Nat × Nat :=
  let narrow := significand = significandBound / 2 && minExponent < exponent
  (4 * significand - (if narrow then 1 else 2), 4 * significand + 2)

/-- `digits * 10 ^ place` is rounded to `significand * 2 ^ exponent`. -/
def readsBack (significand : Nat) (exponent : Int) (digits : Nat) (place : Int) : Bool :=
  let (low, high) := interval significand exponent
  let (n, d) := ratio 1 (exponent - 2)
  let (pn, pd) := tenPow place
  let x := digits * pn * d
  let (low, high) := (low * n * pd, high * n * pd)
  if significand % 2 = 0 then low ≤ x && x ≤ high else low < x && x < high

/-- The decimal with so many digits that is nearest to a number below `10 ^ top`, when it or the one
on the other side of the number reads back. -/
def withDigits? (significand : Nat) (exponent top : Int) (count : Nat) : Option (Nat × Int) :=
  let place := top - count
  let (n, d) := ratio significand exponent
  let (pn, pd) := tenPow place
  let below := n * pd / (d * pn)
  let nearest := roundDiv (n * pd) (d * pn)
  let near := if nearest = below then [below, below + 1] else [below + 1, below]
  (near.find? fun digits => readsBack significand exponent digits place).map (·, place)

/-- The least power of ten above a number that is not zero. -/
def decimalTop (significand : Nat) (exponent : Int) : Int :=
  let guess := (exponent + significand.log2) * 30103 / 100000
  let (n, d) := ratio significand exponent
  let isAbove (top : Int) : Bool :=
    let (pn, pd) := tenPow top
    n * pd < pn * d
  if isAbove guess then guess else if isAbove (guess + 1) then guess + 1 else guess + 2

/-- The fewest digits that read back, and the place of the last of them. Seventeen always do. -/
def shortest (significand : Nat) (exponent : Int) : Nat × Int :=
  let top := decimalTop significand exponent
  ((List.range 17).findSome? fun i => withDigits? significand exponent top (i + 1)).getD (0, 0)

/-- The digits of a decimal with its point, without zeros at the end of the fraction. -/
def positional (digits : Nat) (place : Int) : Text :=
  let ds := Text.ofNat digits
  if 0 ≤ place then ds ++ Text.filled place.toNat 48
  else
    let places := (-place).toNat
    let ds := Text.filled (places + 1 - ds.length) 48 ++ ds
    let fraction : Text := ((ds.drop (ds.length - places)).reverse.dropWhile (· = 48)).reverse
    let whole := ds.take (ds.length - places)
    if fraction.isEmpty then whole else whole ++ 46 :: fraction

/-- A number in decimal notation. -/
def text : Magnitude → Text
  | .finite 0 _ => "0"
  | .finite significand exponent =>
    let (digits, place) := shortest significand exponent
    positional digits place
  | .infinite => "Inf"

/-- A number in decimal notation, with an exponent when there are more than six digits before the
point or more than three zeros after it. -/
def briefText : Magnitude → Text
  | .finite 0 _ => "0"
  | .finite significand exponent =>
    let (digits, place) := shortest significand exponent
    let ds := Text.ofNat digits
    let top := place + ds.length - 1
    if -4 ≤ top && top < 6 then positional digits place
    else
      let fraction := if ds.length = 1 then [] else 46 :: ds.drop 1
      let power := Text.ofNat top.natAbs
      ds.take 1 ++ fraction ++ 101 :: (if top < 0 then 45 else 43)
        :: Text.filled (2 - power.length) 48 ++ power
  | .infinite => "Inf"

end Magnitude

namespace Binary64

/-- A number with its sign. Infinity always has one. -/
def signed (text : Magnitude → Text) : Binary64 → Text
  | .nan => "NaN"
  | .number false .infinite => "+Inf"
  | .number negative m => (if negative then [45] else []) ++ text m

/-- A number in decimal notation. -/
def text (v : Binary64) : Text := v.signed Magnitude.text

/-- A number in decimal notation, with an exponent when that is short. -/
def briefText (v : Binary64) : Text := v.signed Magnitude.briefText

/-- The floating point number nearest to a whole number. -/
def ofInt (n : Int) : Binary64 := .number (n < 0) (Magnitude.ofNat n.natAbs)

end Binary64

/-! ### Reading decimals -/

namespace Decimal

/-- The number of some digits. -/
def number (ds : Text) : Nat := ds.foldl (fun n b => n * 10 + (b.toNat - 48)) 0

/-- Every underscore stands between two digits. -/
def isSpaced : Text → Bool
  | [] => true
  | 95 :: _ => false
  | b :: 95 :: c :: t => Ascii.isDigit b && Ascii.isDigit c && isSpaced (c :: t)
  | [_, 95] => false
  | _ :: t => isSpaced t

/-- The exponent at the end of a decimal. -/
def exponent? : Text → Option Int
  | [] => some 0
  | e :: t =>
    let (negative, ds) := Numeral.sign t
    if (e = 101 || e = 69) && !ds.isEmpty && ds.all Ascii.isDigit then
      some (if negative then -(number ds : Int) else number ds)
    else none

/-- The floating point number nearest to a decimal: digits with a point among them, a sign before
them and an exponent after them. Underscores between digits do not count. -/
def read? (t : Text) : Option Binary64 :=
  let (negative, rest) := Numeral.sign t
  let (whole, rest) := (rest.filter (· ≠ 95)).span Ascii.isDigit
  let (fraction, rest) := match rest with
    | 46 :: rest => rest.span Ascii.isDigit
    | rest => ([], rest)
  if (whole.isEmpty && fraction.isEmpty) || !isSpaced t then none
  else
    (exponent? rest).map fun e =>
      .number negative (Magnitude.ofDecimal (number (whole ++ fraction)) (e - fraction.length))

/-- The floating point number of a decimal that is not too large. -/
def readFinite? (t : Text) : Option Binary64 :=
  match read? t with
  | some (.number _ .infinite) => none
  | found => found

end Decimal

end ModuleSystem
