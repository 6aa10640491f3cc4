/-!
Binary64 floating-point numbers as exact values. A finite number is a canonical pair of a significand
and a scale, so equal numbers are equal terms, and every operation rounds an exact ratio once, to the
nearest number and to the even one of two neighbours.
-/

namespace Lockstep

/-- The quotient of two natural numbers to the nearest whole number, a half to the even neighbour. -/
def roundHalfEven (num den : Nat) : Nat :=
  let q := num / den
  let r := num % den
  if 2 * r < den then q else if den < 2 * r then q + 1 else q + q % 2

/-- A finite magnitude, worth `significand * 2 ^ scale` units of `2 ^ -1074`. The significand has at most
53 bits, and exactly 53 unless the scale is zero. -/
structure Magnitude where
  significand : Nat
  scale : Nat
  significand_lt : significand < Nat.pow 2 53
  normal : scale = 0 ∨ Nat.pow 2 52 ≤ significand
  scale_le : scale ≤ 2045
  deriving DecidableEq

namespace Magnitude

def zero : Magnitude := ⟨0, 0, by decide, .inl rfl, by decide⟩

instance : Inhabited Magnitude := ⟨zero⟩

/-- The magnitude with these two parts, if they are canonical. -/
def mk? (significand scale : Nat) : Option Magnitude :=
  if h : significand < Nat.pow 2 53 ∧ (scale = 0 ∨ Nat.pow 2 52 ≤ significand) ∧ scale ≤ 2045 then
    some ⟨significand, scale, h.1, h.2.1, h.2.2⟩
  else none

/-- The magnitude nearest to a ratio; `none` if the ratio is beyond the largest one. -/
def ofRatio? (num den : Nat) : Option Magnitude :=
  let scale := (num * Nat.pow 2 1074 / den).log2 - 52
  let significand := roundHalfEven (num * Nat.pow 2 1074) (den * Nat.pow 2 scale)
  if significand = Nat.pow 2 53 then mk? (Nat.pow 2 52) (scale + 1) else mk? significand scale

/-- The exact worth of a magnitude in units of `2 ^ -1074`. -/
def units (x : Magnitude) : Nat := x.significand * Nat.pow 2 x.scale

/-- The exact worth of a magnitude as a numerator and a denominator, with no common power of two left
to cancel between the scale and the unit. -/
def ratio (x : Magnitude) : Nat × Nat :=
  if x.scale < 1074 then (x.significand, Nat.pow 2 (1074 - x.scale))
  else (x.significand * Nat.pow 2 (x.scale - 1074), 1)

def toRat (x : Magnitude) : Rat := mkRat x.ratio.1 x.ratio.2

end Magnitude

/-- A binary64 number. -/
inductive Binary64 where
  | nan
  | infinite (negative : Bool)
  | finite (negative : Bool) (magnitude : Magnitude)
  deriving DecidableEq

/-- The exact mathematical value of a number, or that it has none. -/
inductive Quantity where
  | undefined
  | infinite (negative : Bool)
  | finite (value : Rat)
  deriving DecidableEq

namespace Quantity

/-- Equality of mathematical values; an undefined value equals nothing. -/
def equal : Quantity → Quantity → Bool
  | .infinite a, .infinite b => a == b
  | .finite a, .finite b => a == b
  | _, _ => false

/-- The strict order of mathematical values; an undefined value is not ordered. -/
def less : Quantity → Quantity → Bool
  | .infinite a, .infinite b => a && !b
  | .infinite a, .finite _ => a
  | .finite _, .infinite b => !b
  | .finite a, .finite b => a < b
  | _, _ => false

end Quantity

namespace Binary64

instance : Inhabited Binary64 := ⟨.finite false .zero⟩

/-- The number nearest to a signed ratio. -/
def ofRatio (negative : Bool) (num den : Nat) : Binary64 :=
  (Magnitude.ofRatio? num den).elim (.infinite negative) (.finite negative)

def ofRat (q : Rat) : Binary64 := ofRatio (q.num < 0) q.num.natAbs q.den

/-- How many decimal digits a natural number is written with. -/
def decimalLength (n : Nat) : Nat := (Nat.toDigits 10 n).length

/-- The number nearest to `digits * 10 ^ exponent`. Far out of range the answer is known without the
power: a nonzero product above `10 ^ 310` is infinite, one below `10 ^ -330` is zero. -/
def ofDecimal (negative : Bool) (digits : Nat) (exponent : Int) : Binary64 :=
  if digits = 0 then .finite negative .zero
  else if 310 < exponent then .infinite negative
  else if exponent + decimalLength digits < -330 then .finite negative .zero
  else if 0 ≤ exponent then ofRatio negative (digits * Nat.pow 10 exponent.toNat) 1
  else ofRatio negative digits (Nat.pow 10 exponent.natAbs)

def ofNat (n : Nat) : Binary64 := ofRatio false n 1

def isNegative : Binary64 → Bool
  | .nan => false
  | .infinite negative => negative
  | .finite negative _ => negative

def isZero : Binary64 → Bool
  | .finite _ x => x.significand == 0
  | _ => false

def neg : Binary64 → Binary64
  | .nan => .nan
  | .infinite negative => .infinite (!negative)
  | .finite negative x => .finite (!negative) x

instance : Neg Binary64 := ⟨neg⟩

/-- The exact value; both zeros have the value zero. -/
def quantity : Binary64 → Quantity
  | .nan => .undefined
  | .infinite negative => .infinite negative
  | .finite negative x => .finite (if negative then -x.toRat else x.toRat)

/-- The sum, rounded once. A sum of zero is negative only if both terms are. -/
def add (x y : Binary64) : Binary64 :=
  match x.quantity, y.quantity with
  | .finite a, .finite b =>
    if a + b = 0 then .finite (x.isNegative && y.isNegative) .zero else ofRat (a + b)
  | .infinite a, .infinite b => if a = b then .infinite a else .nan
  | .infinite a, .finite _ => .infinite a
  | .finite _, .infinite b => .infinite b
  | _, _ => .nan

/-- The product, rounded once, with the sign of the factors. -/
def mul (x y : Binary64) : Binary64 :=
  let negative := x.isNegative != y.isNegative
  match x.quantity, y.quantity with
  | .finite a, .finite b => ofRatio negative (a * b).num.natAbs (a * b).den
  | .undefined, _ => .nan
  | _, .undefined => .nan
  | _, _ => if x.isZero || y.isZero then .nan else .infinite negative

instance : Add Binary64 := ⟨add⟩
instance : Mul Binary64 := ⟨mul⟩

end Binary64

end Lockstep
