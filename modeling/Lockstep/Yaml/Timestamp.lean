import Lockstep.Calendar
import Lockstep.Number.Numeral

/-!
Timestamps: a date, perhaps a time of day with a fraction of a second, and perhaps a time zone.
-/

namespace Lockstep.Yaml

structure ClockTime where
  hour : Nat
  minute : Nat
  second : Nat
  fraction : List Char
  /-- Minutes ahead of universal time. -/
  zone : Option Int

structure Timestamp where
  date : Date
  time : Option ClockTime

namespace Timestamp

/-- A number of so many digits at the start of a text, and the rest; more digits are taken first. -/
def number? (least most : Nat) (cs : List Char) : Option (Nat × List Char) :=
  let digits := (cs.take most).takeWhile Char.isDigit
  if digits.length < least then none
  else (natOfDigits? 10 digits).map fun n => (n, cs.drop digits.length)

/-- The text after a character. -/
def after? (c : Char) : List Char → Option (List Char)
  | d :: rest => if c = d then some rest else none
  | [] => none

def isBlank (c : Char) : Bool := c = ' ' || c = '\t'

/-- The zone that the text ends with, if there is one. -/
def zone? (cs : List Char) : Option (Option Int) :=
  if cs.isEmpty then some none
  else match cs.dropWhile isBlank with
    | ['Z'] => some (some 0)
    | sign :: rest =>
      if sign = '+' ∨ sign = '-' then do
        let (hours, rest) ← number? 1 2 rest
        let (minutes, rest) ← match rest with
          | ':' :: rest => number? 2 2 rest
          | rest => some (0, rest)
        if rest.isEmpty then
          let offset : Int := hours * 60 + minutes
          some (some (if sign = '-' then -offset else offset))
        else none
      else none
    | [] => none

def clockTime? (cs : List Char) : Option ClockTime := do
  let (hour, cs) ← number? 1 2 cs
  let (minute, cs) ← number? 2 2 (← after? ':' cs)
  let (second, cs) ← number? 2 2 (← after? ':' cs)
  let (fraction, cs) := match cs with
    | '.' :: cs => (cs.takeWhile Char.isDigit, cs.dropWhile Char.isDigit)
    | cs => ([], cs)
  let zone ← zone? cs
  pure ⟨hour, minute, second, fraction, zone⟩

/-- The time after a date: after a letter or some blanks. -/
def time? (cs : List Char) : Option (Option ClockTime) :=
  match cs with
  | [] => some none
  | c :: rest =>
    if c = 'T' ∨ c = 't' then (clockTime? rest).map some
    else if isBlank c then (clockTime? (rest.dropWhile isBlank)).map some
    else none

def ofChars? (cs : List Char) : Option Timestamp := do
  let (year, cs) ← number? 4 4 cs
  let (month, cs) ← number? 1 2 (← after? '-' cs)
  let (day, cs) ← number? 1 2 (← after? '-' cs)
  let time ← time? cs
  pure ⟨⟨year, month, day⟩, time⟩

/-- The first six digits of a fraction, filled up with zeros. -/
def microseconds (fraction : List Char) : Nat :=
  ((natOfDigits? 10 ((fraction ++ List.replicate 6 '0').take 6)).getD 0)

/-- Zones are less than a day away from universal time. -/
def isZone (minutes : Int) : Bool := minutes.natAbs < 1440

/-- The date, or the moment, if there is such a one. -/
def moment? (t : Timestamp) : Option (Date ⊕ DateTime) :=
  match t.time with
  | none => if t.date.isValid then some (.inl t.date) else none
  | some c =>
    let time : TimeOfDay := ⟨c.hour, c.minute, c.second, microseconds c.fraction⟩
    if t.date.isValid && time.isValid && c.zone.all isZone then
      some (.inr ⟨t.date, time, c.zone.map (· * 60)⟩)
    else none

end Timestamp

end Lockstep.Yaml
