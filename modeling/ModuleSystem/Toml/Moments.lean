import ModuleSystem.Calendar
import ModuleSystem.Number.Decimal

/-!
# Dates and times in TOML

A date, a time of day, or both, and with both a distance from universal time.
-/

namespace ModuleSystem

/-- What is wrong with a date or a time. -/
inductive TomlMomentError where
  | dateForm
  | impossibleDate
  | badDigit
  | momentForm
  | separator
  | timeForm
  | hour
  | minute
  | second
  | colonBeforeMinute
  | colonBeforeSecond
  | noFraction
  | noFractionDigit
  | afterTime
  | afterMoment
  | zoneForm
  | zoneSign
  | zoneColon
  | zoneHour
  | zoneMinute
  | afterZone
deriving DecidableEq, Repr

/-- The wording of an error. -/
def TomlMomentError.message : TomlMomentError → Text
  | dateForm => "dates are expected to have the format YYYY-MM-DD"
  | impossibleDate => "impossible date"
  | badDigit => "expected digit (0-9)"
  | momentForm =>
    "local datetimes are expected to have the format YYYY-MM-DDTHH:MM:SS[.NNNNNNNNN]"
  | separator => "datetime separator is expected to be T or a space"
  | timeForm => "times are expected to have the format HH:MM:SS[.NNNNNN]"
  | hour => "hour cannot be greater 23"
  | minute => "minutes cannot be greater 59"
  | second => "seconds cannot be greater than 59"
  | colonBeforeMinute => "expecting colon between hours and minutes"
  | colonBeforeSecond => "expecting colon between minutes and seconds"
  | noFraction => "nanoseconds need at least one digit"
  | noFractionDigit => "need at least one digit after fraction point"
  | afterTime => "extra characters at the end of a local time"
  | afterMoment => "extra characters at the end of a local date time"
  | zoneForm => "invalid date-time timezone"
  | zoneSign => "invalid timezone offset character"
  | zoneColon => "expected a : separator"
  | zoneHour => "invalid timezone offset hours"
  | zoneMinute => "invalid timezone offset minutes"
  | afterZone => "extra bytes at the end of the timezone"

namespace Toml

/-- The number of some bytes that have to be digits. -/
def twoDigits (t : Text) : Except TomlMomentError Nat :=
  if t.all Ascii.isDigit then .ok (Decimal.number t) else .error .badDigit

/-- The bytes from `start` up to `stop` as a number. -/
def field (t : Text) (start stop : Nat) : Except TomlMomentError Nat :=
  twoDigits (t.slice start stop)

/-- The byte at an offset. -/
def byteAt (t : Text) (i : Nat) : UInt8 := (t.drop i).headD 0

/-- Reads a date. -/
def date (t : Text) : Except TomlMomentError Date := do
  if t.length ≠ 10 || byteAt t 4 ≠ 45 || byteAt t 7 ≠ 45 then .error .dateForm
  else
    let d : Date := ⟨← field t 0 4, ← field t 5 7, ← field t 8 10⟩
    if d.isValid then return d else .error .impossibleDate

/-- A time of day, and the number of digits that its fraction is written with. -/
structure WrittenClock where
  clock : Clock
  digits : Nat := 0
deriving DecidableEq, Repr

/-- Reads the fraction of a second after a time, if there is one. Nine digits count. -/
def withFraction (clock : Clock) (t : Text) : Except TomlMomentError (WrittenClock × Text) :=
  match t with
  | 46 :: t =>
    let ds := t.takeWhile Ascii.isDigit
    if ds.isEmpty then .error (if t.isEmpty then .noFraction else .noFractionDigit)
    else
      let counted := ds.take 9
      let nanosecond := Decimal.number counted * Nat.pow 10 (9 - counted.length)
      .ok ({ clock := { clock with nanosecond }, digits := counted.length }, t.drop ds.length)
  | t => .ok ({ clock }, t)

/-- Reads a time of day. -/
def clock (t : Text) : Except TomlMomentError (WrittenClock × Text) := do
  if t.length < 8 then .error .timeForm
  else
    let hour ← field t 0 2
    if 23 < hour then .error .hour
    else if byteAt t 2 ≠ 58 then .error .colonBeforeMinute
    else
      let minute ← field t 3 5
      if 59 < minute then .error .minute
      else if byteAt t 5 ≠ 58 then .error .colonBeforeSecond
      else
        let second ← field t 6 8
        if 59 < second then .error .second
        else withFraction { hour, minute, second } (t.drop 8)

/-- Reads a date with a time of day. -/
def dateAndClock (t : Text) : Except TomlMomentError ((Date × WrittenClock) × Text) := do
  if t.length < 11 then .error .momentForm
  else
    let d ← date (t.take 10)
    let separator := byteAt t 10
    if separator ≠ 84 && separator ≠ 116 && separator ≠ 32 then .error .separator
    else
      let (c, rest) ← clock (t.drop 11)
      return ((d, c), rest)

/-- Reads a distance from universal time, in minutes. -/
def zone (t : Text) : Except TomlMomentError Int := do
  match t with
  | b :: rest =>
    if b = 90 || b = 122 then
      if rest.isEmpty then return 0 else .error .afterZone
    else if t.length ≠ 6 then .error .zoneForm
    else if b ≠ 45 && b ≠ 43 then .error .zoneSign
    else if byteAt t 3 ≠ 58 then .error .zoneColon
    else
      let hours ← field t 1 3
      if 23 < hours then .error .zoneHour
      else
        let minutes ← field t 4 6
        if 59 < minutes then .error .zoneMinute
        else
          let offset : Int := hours * 60 + minutes
          return if b = 45 then -offset else offset
  | [] => .error .zoneForm

/-- What a date or a time consists of. -/
inductive MomentKind where
  | date
  | clock
  /-- A date with a time of day. -/
  | both
  /-- A date with a time of day and a distance from universal time. -/
  | zoned
deriving DecidableEq, Repr

/-- The time as it was written. -/
def WrittenClock.text (c : WrittenClock) : Text := c.clock.text ++ c.clock.fraction c.digits

/-- The date or time of a word as it is written out. -/
def momentText (kind : MomentKind) (word : Text) : Except TomlMomentError Text := do
  match kind with
  | .date => return (← date word).text
  | .clock =>
    let (c, rest) ← clock word
    if rest.isEmpty then return c.text else .error .afterTime
  | .both =>
    let ((d, c), rest) ← dateAndClock word
    if rest.isEmpty then return d.text ++ 84 :: c.text else .error .afterMoment
  | .zoned =>
    let ((d, c), rest) ← dateAndClock word
    return Moment.text { date := d, clock := c.clock, offset := ← zone rest }

end Toml

end ModuleSystem
