import ModuleSystem.Text.Quoted

/-!
# Numerals

Whole numbers as people write them: digits in some base, and with a sign where there may be one.
When the base is left open it is ten, or after `0b`, `0o`, `0` or `0x` two, eight, eight or sixteen,
and single underscores may stand between digits.  Numbers take 64 bits.
-/

namespace ModuleSystem

/-- Why a text is no number. -/
inductive NumeralError where
  | malformed
  | tooLarge
deriving DecidableEq, Repr

/-- The wording of an error about a word that should be a number of some kind. -/
def NumeralError.message (kind word : Text) (e : NumeralError) : Text :=
  let reason : Text := match e with
    | malformed => "invalid syntax"
    | tooLarge => "value out of range"
  "strconv.Parse" ++ kind ++ Text.ofString ": parsing " ++ Quoted.display word
    ++ Text.ofString ": " ++ reason

namespace Numeral

/-- The value of a digit in any base. -/
def digitValue? (b : UInt8) : Option Nat :=
  let b := Ascii.toLower b
  if Ascii.isDigit b then some (b.toNat - 48)
  else if Ascii.isLetter b then some (b.toNat - 87)
  else none

/-- The base of a numeral without sign, and its digits. A base that is named by a letter needs
digits after it. -/
def base (t : Text) : Nat × Text :=
  match t with
  | 48 :: b :: d :: t =>
    match Ascii.toLower b with
    | 98 => (2, d :: t)
    | 111 => (8, d :: t)
    | 120 => (16, d :: t)
    | _ => (8, b :: d :: t)
  | 48 :: t => (8, t)
  | t => (10, t)

/-- The number that digits add to the number of the digits before them. Underscores among them do
not count where they are allowed. -/
def digits (base : Nat) (spaced : Bool) : Nat → Text → Except NumeralError Nat
  | n, [] => .ok n
  | n, b :: t =>
    if spaced && b = 95 then digits base spaced n t
    else
      match digitValue? b with
      | none => .error .malformed
      | some d =>
        if base ≤ d then .error .malformed
        else if Nat.pow 2 64 ≤ n * base + d then .error .tooLarge
        else digits base spaced (n * base + d) t

/-- Underscores stand between digits only. The letter of a base counts as a digit. -/
def isSpaced (t : Text) : Bool :=
  let named := match t with
    | 48 :: b :: _ => (digitValue? b).isSome && !Ascii.isDigit b
    | _ => false
  let groups := (if named then t.drop 2 else t).splitOn 95
  (if named then groups.drop 1 else groups).all fun g => !g.isEmpty

/-- The number of a numeral without sign, in a given base or in the one it names itself. -/
def magnitude (t : Text) (given : Option Nat := none) : Except NumeralError Nat :=
  if t.isEmpty then .error .malformed
  else
    match given with
    | some base => digits base false 0 t
    | none =>
      let (base, ds) := base t
      match digits base true 0 ds with
      | .error e => .error e
      | .ok n => if !isSpaced t then .error .malformed else .ok n

/-- The sign of a numeral, and what follows it. -/
def sign (t : Text) : Bool × Text :=
  match t with
  | 45 :: t => (true, t)
  | 43 :: t => (false, t)
  | t => (false, t)

/-- The number of a numeral, in a given base or in the one it names itself. -/
def read (t : Text) (given : Option Nat := none) : Except NumeralError Int :=
  let (negative, t) := sign t
  match magnitude t given with
  | .error e => .error e
  | .ok n =>
    if negative then (if Nat.pow 2 63 < n then .error .tooLarge else .ok (-(n : Int)))
    else if Nat.pow 2 63 ≤ n then .error .tooLarge else .ok n

end Numeral

end ModuleSystem
