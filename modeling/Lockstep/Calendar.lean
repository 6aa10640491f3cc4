/-!
Dates, times of day and durations, with their ISO 8601 texts.
-/

namespace Lockstep

structure Date where
  year : Nat
  month : Nat
  day : Nat
  deriving DecidableEq

structure TimeOfDay where
  hour : Nat
  minute : Nat
  second : Nat
  microsecond : Nat
  deriving DecidableEq

/-- A date and a time, with the seconds by which local time is ahead of universal time, if known. -/
structure DateTime where
  date : Date
  time : TimeOfDay
  offset : Option Int
  deriving DecidableEq

/-- A signed length of time in microseconds. -/
structure Duration where
  microseconds : Int
  deriving DecidableEq

/-- A number with leading zeros up to the given width. -/
def padded (width n : Nat) : String :=
  let digits := Nat.toDigits 10 n
  String.ofList (List.replicate (width - digits.length) '0' ++ digits)

namespace Date

def isLeap (year : Nat) : Bool := year % 4 == 0 && (year % 100 != 0 || year % 400 == 0)

def monthLength (year month : Nat) : Nat :=
  if month = 2 then (if isLeap year then 29 else 28)
  else if month = 4 ∨ month = 6 ∨ month = 9 ∨ month = 11 then 30
  else 31

/-- Years have one to four digits and start at 1. -/
def isValid (d : Date) : Bool :=
  1 ≤ d.year ∧ d.year ≤ 9999 ∧ 1 ≤ d.month ∧ d.month ≤ 12 ∧ 1 ≤ d.day ∧
    d.day ≤ monthLength d.year d.month

/-- The days before the first of a month. -/
def daysBeforeMonth (year month : Nat) : Nat :=
  (List.range (month - 1)).foldl (fun days m => days + monthLength year (m + 1)) 0

/-- Days since the last day of the year 0. -/
def dayNumber (d : Date) : Nat :=
  let past := d.year - 1
  past * 365 + past / 4 - past / 100 + past / 400 + daysBeforeMonth d.year d.month + d.day

def text (d : Date) : String :=
  padded 4 d.year ++ "-" ++ padded 2 d.month ++ "-" ++ padded 2 d.day

end Date

namespace TimeOfDay

def isValid (t : TimeOfDay) : Bool :=
  t.hour < 24 ∧ t.minute < 60 ∧ t.second < 60 ∧ t.microsecond < 1000000

/-- Microseconds are written only if there are any, and then with six digits. -/
def text (t : TimeOfDay) : String :=
  padded 2 t.hour ++ ":" ++ padded 2 t.minute ++ ":" ++ padded 2 t.second ++
    (if t.microsecond = 0 then "" else "." ++ padded 6 t.microsecond)

def microseconds (t : TimeOfDay) : Nat :=
  ((t.hour * 60 + t.minute) * 60 + t.second) * 1000000 + t.microsecond

end TimeOfDay

namespace DateTime

/-- Universal time is marked `Z`; any other offset is written in hours and minutes. -/
def offsetText (seconds : Int) : String :=
  if seconds = 0 then "Z"
  else
    let minutes := seconds.natAbs / 60
    (if seconds < 0 then "-" else "+") ++ padded 2 (minutes / 60) ++ ":" ++ padded 2 (minutes % 60)

def text (d : DateTime) : String :=
  d.date.text ++ "T" ++ d.time.text ++ (match d.offset with | some s => offsetText s | none => "")

/-- The moment in microseconds, on the universal scale if the offset is known. -/
def instant (d : DateTime) : Int :=
  (d.date.dayNumber * 86400000000 + d.time.microseconds : Nat) - d.offset.getD 0 * 1000000

/-- Two moments are equal on the universal scale, or as local times if neither has an offset. -/
def same (a b : DateTime) : Bool := a.offset.isSome == b.offset.isSome && a.instant == b.instant

end DateTime

namespace Duration

def ofParts (days seconds microseconds : Int) : Duration :=
  ⟨(days * 86400 + seconds) * 1000000 + microseconds⟩

/-- A part of a duration with its letter, left out if it is zero. -/
def part (n : Nat) (letter : String) : String := if n = 0 then "" else toString n ++ letter

/-- Seconds with their fraction, which has no trailing zeros. -/
def secondsPart (seconds microseconds : Nat) : String :=
  if microseconds = 0 then part seconds "S"
  else
    let fraction := ((padded 6 microseconds).toList.reverse.dropWhile (· == '0')).reverse
    toString seconds ++ "." ++ String.ofList fraction ++ "S"

/-- Years of 365 days, days, hours, minutes and seconds of the absolute length, after a sign. -/
def text (d : Duration) : String :=
  let total := d.microseconds.natAbs
  let seconds := total / 1000000
  let days := seconds / 86400
  let rest := seconds % 86400
  let clock := part (rest / 3600) "H" ++ part (rest / 60 % 60) "M" ++ secondsPart (rest % 60) (total % 1000000)
  if total = 0 then "PT0S"
  else
    (if d.microseconds < 0 then "-" else "") ++ "P" ++ part (days / 365) "Y" ++ part (days % 365) "D" ++
      (if clock.isEmpty then "" else "T" ++ clock)

end Duration

end Lockstep
