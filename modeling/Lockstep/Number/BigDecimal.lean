import Lockstep.Number.Numeral

/-!
Decimal numbers of any precision, which keep the exponent they were written with.
-/

namespace Lockstep

/-- A decimal `coefficient * 10 ^ exponent` with its sign, or one of the special values. -/
inductive BigDecimal where
  | finite (negative : Bool) (coefficient : Nat) (exponent : Int)
  | infinite (negative : Bool)
  | nan (negative signaling : Bool) (payload : List Char)
  deriving DecidableEq

namespace BigDecimal

/-- The diagnostic digits after a special name, without leading zeros. -/
def payload? (cs : List Char) : Option (List Char) :=
  if cs.all Char.isDigit then some (cs.dropWhile (· == '0')) else none

/-- Reads a numeral or the name of a special value. -/
def ofText? (s : String) : Option BigDecimal :=
  let cs := (trimBlanks s.toList).filter (· != '_')
  let (sign, body) := Numeral.takeSign cs
  let negative := sign == some true
  match Numeral.split? cs with
  | some n =>
    if n.whole.isEmpty && (n.fraction.getD []).isEmpty then none
    else some (.finite negative n.coefficient n.power)
  | none =>
    let name := lowerAscii body
    if name = "inf".toList ∨ name = "infinity".toList then some (.infinite negative)
    else if name.take 3 = "nan".toList then (payload? (name.drop 3)).map (.nan negative false)
    else if name.take 4 = "snan".toList then (payload? (name.drop 4)).map (.nan negative true)
    else none

/-- The exact value; a diagnostic value has none. -/
def quantity : BigDecimal → Quantity
  | .finite negative c e =>
    let magnitude : Rat := if 0 ≤ e then (c * Nat.pow 10 e.toNat : Nat) else mkRat c (Nat.pow 10 e.natAbs)
    .finite (if negative then -magnitude else magnitude)
  | .infinite negative => .infinite negative
  | .nan .. => .undefined

/-- The digits with the point after the first `point` of them, and no point at the end. -/
def withPoint (digits : List Char) (point : Int) : List Char :=
  if point ≤ 0 then '0' :: '.' :: (List.replicate point.natAbs '0' ++ digits)
  else if digits.length ≤ point.toNat then digits ++ List.replicate (point.toNat - digits.length) '0'
  else digits.take point.toNat ++ '.' :: digits.drop point.toNat

/-- Positional while the exponent is not positive and the first digit stands at `10 ^ -6` or above;
otherwise one digit before the point and a signed power of ten. -/
def finiteChars (coefficient : Nat) (exponent : Int) : List Char :=
  let digits := Nat.toDigits 10 coefficient
  let left : Int := exponent + digits.length
  if exponent ≤ 0 ∧ -6 < left then withPoint digits left
  else
    let power := left - 1
    let mark := if power < 0 then ['E', '-'] else ['E', '+']
    withPoint digits 1 ++ (if power = 0 then [] else mark ++ Nat.toDigits 10 power.natAbs)

def text : BigDecimal → String
  | .finite negative c e => String.ofList ((if negative then ['-'] else []) ++ finiteChars c e)
  | .infinite negative => if negative then "-Infinity" else "Infinity"
  | .nan negative signaling payload =>
    (if negative then "-" else "") ++ (if signaling then "sNaN" else "NaN") ++ String.ofList payload

end BigDecimal

end Lockstep
