/-!
# Binary floating point numbers

Numbers with a significand of 53 bits.  Their arithmetic is exact arithmetic followed by one
rounding, so everything is read off `Magnitude.ofRatio`, which rounds a quotient of whole numbers to
the nearest number there is, and to the one with the even significand when two are equally near.
-/

namespace ModuleSystem

/-- A floating point number without its sign. -/
inductive Magnitude where
  /-- The number `significand * 2 ^ exponent`. -/
  | finite (significand : Nat) (exponent : Int)
  | infinite
deriving DecidableEq, Repr

namespace Magnitude

/-- Significands are smaller than this. -/
def significandBound : Nat := Nat.pow 2 53

/-- The smallest exponent. -/
def minExponent : Int := -1074

/-- The largest exponent. -/
def maxExponent : Int := 971

/-- A quotient rounded to the nearest whole number, and to the even one of two. -/
def roundDiv (n d : Nat) : Nat :=
  let q := n / d
  let r := n % d
  if 2 * r < d then q else if d < 2 * r then q + 1 else q + q % 2

/-- The quotient `n / d` divided by a power of two, as a quotient. -/
def descale (n d : Nat) (exponent : Int) : Nat × Nat :=
  if 0 ≤ exponent then (n, d * Nat.pow 2 exponent.toNat) else (n * Nat.pow 2 (-exponent).toNat, d)

/-- The floating point number nearest to `n / d`. The exponent is the smallest one with which the
significand is small enough. -/
def ofRatio (n d : Nat) : Magnitude :=
  if n = 0 then .finite 0 minExponent
  else
    let low := max minExponent ((n.log2 : Int) - d.log2 - 53)
    let (n₀, d₀) := descale n d low
    let exponent := if significandBound ≤ n₀ / d₀ then low + 1 else low
    let (n₁, d₁) := descale n d exponent
    let rounded := roundDiv n₁ d₁
    let (significand, exponent) :=
      if rounded = significandBound then (rounded / 2, exponent + 1) else (rounded, exponent)
    if maxExponent < exponent then .infinite else .finite significand exponent

/-- The floating point number nearest to a whole number. -/
def ofNat (n : Nat) : Magnitude := ofRatio n 1

/-- A number as a quotient of whole numbers. -/
def ratio (significand : Nat) (exponent : Int) : Nat × Nat :=
  if 0 ≤ exponent then (significand * Nat.pow 2 exponent.toNat, 1)
  else (significand, Nat.pow 2 (-exponent).toNat)

/-- The product of two numbers. -/
def mul : Magnitude → Magnitude → Magnitude
  | .finite s e, .finite s' e' =>
    let (n, d) := ratio s e
    let (n', d') := ratio s' e'
    ofRatio (n * n') (d * d')
  | _, _ => .infinite

/-- The quotient of two numbers. -/
def div : Magnitude → Magnitude → Magnitude
  | .finite s e, .finite s' e' =>
    let (n, d) := ratio s e
    let (n', d') := ratio s' e'
    if n' = 0 then .infinite else ofRatio (n * d') (d * n')
  | .finite _ _, .infinite => .finite 0 minExponent
  | .infinite, _ => .infinite

/-- The largest whole number that is not greater; none is the largest below infinity. -/
def floor? : Magnitude → Option Nat
  | .finite s e =>
    let (n, d) := ratio s e
    some (n / d)
  | .infinite => none

end Magnitude

/-- A floating point number. -/
inductive Binary64 where
  | number (negative : Bool) (magnitude : Magnitude)
  | nan
deriving DecidableEq, Repr

end ModuleSystem
