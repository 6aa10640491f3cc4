/-!
Characters written as UTF-16 units. A high surrogate and the low surrogate after it are one character;
a format decides what a surrogate without its partner stands for.
-/

namespace Lockstep

def isHighSurrogate (code : Nat) : Bool := 0xd800 ≤ code && code < 0xdc00

def isLowSurrogate (code : Nat) : Bool := 0xdc00 ≤ code && code < 0xe000

/-- The character of a surrogate pair. -/
def joinPair (high low : Nat) : Char := Char.ofNat (0x10000 + (high - 0xd800) * 0x400 + (low - 0xdc00))

/-- The character with a code, or what stands for a surrogate without its partner. -/
def loneChar? (lone : Option Char) (code : Nat) : Option Char :=
  if isHighSurrogate code || isLowSurrogate code then lone else some (Char.ofNat code)

/-- The characters with these codes, surrogate pairs joined. -/
def charsOfCodes? (lone : Option Char) : List Nat → Option (List Char)
  | high :: low :: rest =>
    if isHighSurrogate high && isLowSurrogate low then
      (charsOfCodes? lone rest).map (joinPair high low :: ·)
    else do
      let c ← loneChar? lone high
      let cs ← charsOfCodes? lone (low :: rest)
      pure (c :: cs)
  | [code] => (loneChar? lone code).map ([·])
  | [] => some []

end Lockstep
