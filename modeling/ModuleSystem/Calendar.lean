import ModuleSystem.Text

/-!
# Dates and times of day

Moments of the calendar as settings may hold them, and how they are written out.
-/

namespace ModuleSystem

/-- A day of the calendar. -/
structure Date where
  year : Nat
  month : Nat
  day : Nat
deriving DecidableEq, Repr

/-- A time of day. -/
structure Clock where
  hour : Nat := 0
  minute : Nat := 0
  second : Nat := 0
  nanosecond : Nat := 0
deriving DecidableEq, Repr

namespace Text

/-- A number with at least so many digits. -/
def padded (width n : Nat) : Text :=
  let ds := ofNat n
  filled (width - ds.length) 48 ++ ds

end Text

namespace Date

/-- The year has a day more. -/
def isLeap (year : Nat) : Bool := year % 4 = 0 && (year % 100 ≠ 0 || year % 400 = 0)

/-- The number of days of a month. -/
def daysIn (year month : Nat) : Nat :=
  if month = 2 then (if isLeap year then 29 else 28)
  else if month = 4 || month = 6 || month = 9 || month = 11 then 30
  else 31

/-- The day exists. -/
def isValid (d : Date) : Bool :=
  1 ≤ d.month && d.month ≤ 12 && 1 ≤ d.day && d.day ≤ daysIn d.year d.month

/-- The day as it is written. -/
def text (d : Date) : Text :=
  Text.padded 4 d.year ++ 45 :: Text.padded 2 d.month ++ 45 :: Text.padded 2 d.day

end Date

namespace Clock

/-- The time to the second. -/
def text (c : Clock) : Text :=
  Text.padded 2 c.hour ++ 58 :: Text.padded 2 c.minute ++ 58 :: Text.padded 2 c.second

/-- The fraction of the second, with so many digits of the nine there are. -/
def fraction (c : Clock) (digits : Nat) : Text :=
  if digits = 0 then [] else 46 :: (Text.padded 9 c.nanosecond).take digits

/-- The fraction of the second, without zeros at its end. -/
def shortFraction (c : Clock) : Text :=
  let ds : Text := ((Text.padded 9 c.nanosecond).reverse.dropWhile (· = 48)).reverse
  if ds.isEmpty then [] else 46 :: ds

end Clock

/-- A moment: a day and a time of day at a distance from universal time. -/
structure Moment where
  date : Date
  clock : Clock := {}
  /-- The distance in minutes. -/
  offset : Int := 0
deriving DecidableEq, Repr

namespace Moment

/-- A distance from universal time in hours and minutes. -/
def offsetText (offset : Int) : Text :=
  let minutes := offset.natAbs
  (if offset < 0 then 45 else 43) :: Text.padded 2 (minutes / 60) ++ Text.padded 2 (minutes % 60)

/-- The moment as it is written. A distance stands in for the name of the zone, unless there is
none. -/
def text (m : Moment) : Text :=
  let zone : Text := if m.offset = 0 then "UTC" else offsetText m.offset
  m.date.text ++ 32 :: m.clock.text ++ m.clock.shortFraction ++ 32 :: offsetText m.offset
    ++ 32 :: zone

end Moment

end ModuleSystem
