/-!
Reading base 64. Characters outside of the alphabet are skipped, and padding ends the text where it
completes a group of four.
-/

namespace Lockstep

/-- The six bits that a character stands for. -/
def base64Bits? (c : Char) : Option Nat :=
  if 'A' ≤ c ∧ c ≤ 'Z' then some (c.toNat - 'A'.toNat)
  else if 'a' ≤ c ∧ c ≤ 'z' then some (c.toNat - 'a'.toNat + 26)
  else if '0' ≤ c ∧ c ≤ '9' then some (c.toNat - '0'.toNat + 52)
  else if c = '+' then some 62
  else if c = '/' then some 63
  else none

/-- The bytes of the characters of a group; a group of one has none. -/
def base64Group (bits : List Nat) : List UInt8 :=
  match bits with
  | [a, b] => [UInt8.ofNat (a * 4 + b / 16)]
  | [a, b, c] => [UInt8.ofNat (a * 4 + b / 16), UInt8.ofNat (b % 16 * 16 + c / 4)]
  | [a, b, c, d] =>
    [UInt8.ofNat (a * 4 + b / 16), UInt8.ofNat (b % 16 * 16 + c / 4), UInt8.ofNat (c % 4 * 64 + d)]
  | _ => []

/-- Reads what follows an unfinished group and its padding so far. -/
def base64From? (group : List Nat) (padding : Nat) : List Char → Option (List UInt8)
  | [] => if group.isEmpty then some [] else none
  | c :: rest => match base64Bits? c with
    | some bits =>
      if group.length = 3 then (base64From? [] 0 rest).map (base64Group (group ++ [bits]) ++ ·)
      else base64From? (group ++ [bits]) 0 rest
    | none =>
      if c = '=' ∧ 2 ≤ group.length then
        if 4 ≤ group.length + padding + 1 then some (base64Group group)
        else base64From? group (padding + 1) rest
      else base64From? group padding rest

def bytesOfBase64? (cs : List Char) : Option (List UInt8) := base64From? [] 0 cs

end Lockstep
