import Lockstep.Number.Binary64

/-!
Written numbers: digits in a base, and the parts of a decimal numeral. A numeral is split once, and the
formats that read numbers differ only in which parts they insist on.
-/

namespace Lockstep

/-- The value of a digit below the given base; letters stand for ten and up in either case. -/
def digitValue? (base : Nat) (c : Char) : Option Nat :=
  let value :=
    if '0' ≤ c ∧ c ≤ '9' then c.toNat - '0'.toNat
    else if 'a' ≤ c ∧ c ≤ 'z' then c.toNat - 'a'.toNat + 10
    else if 'A' ≤ c ∧ c ≤ 'Z' then c.toNat - 'A'.toNat + 10
    else base
  if value < base then some value else none

/-- The number written with these digits after those already read. -/
def digitsFrom? (base : Nat) : Nat → List Char → Option Nat
  | n, [] => some n
  | n, c :: rest =>
    match digitValue? base c with
    | some d => digitsFrom? base (base * n + d) rest
    | none => none

/-- The number written with one or more digits of the base. -/
def natOfDigits? (base : Nat) (cs : List Char) : Option Nat :=
  if cs.isEmpty then none else digitsFrom? base 0 cs

/-- The parts of a decimal numeral such as `-12.50e+3`. A sign is `true` for minus. -/
structure Numeral where
  sign : Option Bool
  whole : List Char
  fraction : Option (List Char)
  exponent : Option (Option Bool × List Char)

namespace Numeral

def takeSign : List Char → Option Bool × List Char
  | '-' :: rest => (some true, rest)
  | '+' :: rest => (some false, rest)
  | rest => (none, rest)

def takeDigits (cs : List Char) : List Char × List Char :=
  (cs.takeWhile Char.isDigit, cs.dropWhile Char.isDigit)

/-- Splits a text into the parts of a numeral, if nothing else is in it. Any part may be missing here,
but an exponent mark is followed by digits. -/
def split? (cs : List Char) : Option Numeral :=
  let (sign, rest) := takeSign cs
  let (whole, rest) := takeDigits rest
  let (fraction, rest) := match rest with
    | '.' :: rest => let (digits, rest) := takeDigits rest; (some digits, rest)
    | rest => (none, rest)
  match rest with
  | [] => some ⟨sign, whole, fraction, none⟩
  | c :: rest =>
    if c = 'e' ∨ c = 'E' then
      let (expSign, rest) := takeSign rest
      let (digits, rest) := takeDigits rest
      if digits.isEmpty || !rest.isEmpty then none
      else some ⟨sign, whole, fraction, some (expSign, digits)⟩
    else none

def isNegative (n : Numeral) : Bool := n.sign == some true

/-- All digits before the exponent, as one number. -/
def coefficient (n : Numeral) : Nat := (digitsFrom? 10 0 (n.whole ++ n.fraction.getD [])).getD 0

/-- The power of ten of the last digit of the coefficient. -/
def power (n : Numeral) : Int :=
  let written : Int := match n.exponent with
    | none => 0
    | some (sign, digits) =>
      let e : Int := ((digitsFrom? 10 0 digits).getD 0 : Nat)
      if sign == some true then -e else e
  written - ((n.fraction.getD []).length : Int)

def toBinary64 (n : Numeral) : Binary64 := .ofDecimal n.isNegative n.coefficient n.power

end Numeral

/-- Blanks that may surround a written number. -/
def isNumberBlank (c : Char) : Bool :=
  c = ' ' ∨ ('\t' ≤ c ∧ c ≤ '\r') ∨ ('\x1c' ≤ c ∧ c ≤ '\x1f') ∨ c = '\u0085' ∨ c = '\u00a0'

def trimBlanks (cs : List Char) : List Char :=
  ((cs.dropWhile isNumberBlank).reverse.dropWhile isNumberBlank).reverse

def lowerAscii (cs : List Char) : List Char := cs.map Char.toLower

namespace Binary64

/-- Reads a floating-point number: a decimal numeral with at least one digit before its exponent, or the
name of an infinity or of the undefined number. -/
def ofChars? (cs : List Char) : Option Binary64 :=
  let trimmed := trimBlanks cs
  let (sign, body) := Numeral.takeSign trimmed
  let negative := sign == some true
  let name := String.ofList (lowerAscii body)
  if name = "inf" ∨ name = "infinity" then some (.infinite negative)
  else if name = "nan" then some .nan
  else match Numeral.split? trimmed with
    | some n => if n.whole.isEmpty && (n.fraction.getD []).isEmpty then none else some n.toBinary64
    | none => none

def ofText? (s : String) : Option Binary64 := ofChars? s.toList

end Binary64

end Lockstep
