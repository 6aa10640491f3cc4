import Lockstep.Number.Binary64

/-!
The shortest decimal that reads back as a given binary64 magnitude, and among those the nearest one.
A decimal is accepted only if rounding it gives the magnitude again, so what is found always reads back.
-/

namespace Lockstep

/-- The decimal number `digits * 10 ^ exponent`. -/
structure Decimal where
  digits : Nat
  exponent : Int
  deriving DecidableEq

namespace Magnitude

/-- The magnitude nearest to a decimal. -/
def ofDecimal? (d : Decimal) : Option Magnitude :=
  if 0 ≤ d.exponent then ofRatio? (d.digits * Nat.pow 10 d.exponent.toNat) 1
  else ofRatio? d.digits (Nat.pow 10 d.exponent.natAbs)

/-- Every magnitude is a decimal: a denominator `2 ^ k` becomes `10 ^ k`. -/
def exactDecimal (x : Magnitude) : Decimal :=
  if x.scale < 1074 then ⟨x.significand * Nat.pow 5 (1074 - x.scale), -((1074 - x.scale : Nat) : Int)⟩
  else ⟨x.significand * Nat.pow 2 (x.scale - 1074), 0⟩

/-- The magnitude counted in steps of `10 ^ exponent`, as a ratio. -/
def inSteps (x : Magnitude) (exponent : Int) : Nat × Nat :=
  let (num, den) := x.ratio
  if 0 ≤ exponent then (num, den * Nat.pow 10 exponent.toNat)
  else (num * Nat.pow 10 exponent.natAbs, den)

/-- The multiple of `10 ^ exponent` nearest to the magnitude, if one of the two neighbours reads back.
Of two neighbours at the same distance the even one is taken. -/
def onGrid? (x : Magnitude) (exponent : Int) : Option Decimal :=
  let (num, den) := x.inSteps exponent
  let below : Decimal := ⟨num / den, exponent⟩
  let above : Decimal := ⟨num / den + 1, exponent⟩
  match decide (ofDecimal? below = some x), decide (ofDecimal? above = some x) with
  | true, true => some ⟨roundHalfEven num den, exponent⟩
  | true, false => some below
  | false, true => some above
  | false, false => none

/-- Tries ever finer grids, the given number of them. -/
def firstOnGrid? (x : Magnitude) : Nat → Int → Option Decimal
  | 0, _ => none
  | tries + 1, exponent =>
    match x.onGrid? exponent with
    | some d => some d
    | none => firstOnGrid? x tries (exponent - 1)

/-- An exponent at which a single step of the grid is at least the magnitude. -/
def coarsestGrid (x : Magnitude) : Int :=
  let (num, den) := x.ratio
  if den ≤ num then Binary64.decimalLength (num / den)
  else 1 - (Binary64.decimalLength (den / num) : Int)

/-- The decimal of fewest digits that reads back as the magnitude, and of those the nearest to it.
Seventeen digits always suffice; the exact decimal stands in for the case that never arises. -/
def shortest (x : Magnitude) : Decimal :=
  if x.significand = 0 then ⟨0, 0⟩
  else (x.firstOnGrid? 19 x.coarsestGrid).getD x.exactDecimal

end Magnitude

end Lockstep
