import Lockstep.Number.Shortest

/-!
How a number is laid out as text. The digits are always the shortest that read back; a layout says where
positional notation ends, whether whole numbers keep a point, and what is written for the rest.
-/

namespace Lockstep

/-- The choices a format makes in writing floating-point numbers. -/
structure NumberLayout where
  /-- Positional notation is used from this power of ten of the first digit. -/
  leastPositional : Int
  /-- Positional notation is used up to this power of ten of the first digit. -/
  mostPositional : Int
  /-- Written after a whole number in positional notation. -/
  wholeEnding : List Char
  nan : List Char
  infinity : List Char

namespace NumberLayout

/-- Positional from `1e-04` up to sixteen digits, and always recognisable as a floating-point number. -/
def plain : NumberLayout := ⟨-4, 15, ['.', '0'], "nan".toList, "inf".toList⟩

/-- The layout of numbers inside rendered documents. -/
def document : NumberLayout := ⟨-4, 15, ['.', '0'], "NaN".toList, "Infinity".toList⟩

/-- The layout of the two parts of a complex number: no exponent, no point after a whole number. -/
def complexPart : NumberLayout := ⟨-400, 400, [], "NaN".toList, "inf".toList⟩

def zeros (n : Nat) : List Char := List.replicate n '0'

/-- An exponent with its sign and at least two digits. -/
def exponentChars (e : Int) : List Char :=
  let digits := Nat.toDigits 10 e.natAbs
  (if e < 0 then '-' else '+') :: (zeros (2 - digits.length) ++ digits)

/-- The digits with the point after the first `point` of them; `point` may lie outside the digits. -/
def positional (wholeEnding : List Char) (digits : List Char) (point : Int) : List Char :=
  if point ≤ 0 then '0' :: '.' :: (zeros point.natAbs ++ digits)
  else if digits.length ≤ point.toNat then digits ++ zeros (point.toNat - digits.length) ++ wholeEnding
  else digits.take point.toNat ++ '.' :: digits.drop point.toNat

/-- The digits with the point after the first, and the power of ten that the first digit stands for. -/
def scientific (digits : List Char) (power : Int) : List Char :=
  let fraction := digits.drop 1
  digits.take 1 ++ (if fraction.isEmpty then [] else '.' :: fraction) ++ 'e' :: exponentChars power

def decimalChars (layout : NumberLayout) (d : Decimal) : List Char :=
  let digits := Nat.toDigits 10 d.digits
  let power := digits.length + d.exponent - 1
  if layout.leastPositional ≤ power ∧ power ≤ layout.mostPositional then
    positional layout.wholeEnding digits (power + 1)
  else scientific digits power

def chars (layout : NumberLayout) : Binary64 → List Char
  | .nan => layout.nan
  | .infinite negative => (if negative then ['-'] else []) ++ layout.infinity
  | .finite negative x => (if negative then ['-'] else []) ++ layout.decimalChars x.shortest

def text (layout : NumberLayout) (x : Binary64) : String := String.ofList (layout.chars x)

end NumberLayout

end Lockstep
