import Lockstep.Fault

/-!
Reading positions in a YAML text. A position knows its line and column, because the syntax depends on them.
-/

namespace Lockstep.Yaml

/-- Why a text gives no data: its syntax or structure is wrong, or a scalar has no value. -/
inductive Defect where
  | malformed
  | scalar (cause : ScalarFault)
  deriving DecidableEq

/-- The characters that a text may hold. -/
def isPrintable (c : Char) : Bool :=
  c = '\t' ∨ c = '\n' ∨ (' ' ≤ c ∧ c ≤ '~') ∨ c = '\u0085' ∨ ('\u00a0' ≤ c ∧ c ≤ '\ufffd') ∨ 0x10000 ≤ c.toNat

def isBreak (c : Char) : Bool := c = '\n' ∨ c = '\u0085' ∨ c = '\u2028' ∨ c = '\u2029'

/-- Whether a line ends here: at a break or at the end of the text. -/
def endsLine : Option Char → Bool
  | none => true
  | some c => isBreak c

/-- Whether a line or a word ends here; words end at spaces. -/
def endsWord : Option Char → Bool
  | none => true
  | some c => c = ' ' || isBreak c

/-- Whether there is nothing visible here: a space, a tab, or the end of a line. -/
def isGap : Option Char → Bool
  | none => true
  | some c => c = ' ' || c = '\t' || isBreak c

/-- Every line break written with a carriage return becomes a line feed. -/
def normalizeBreaks : List Char → List Char
  | '\r' :: '\n' :: rest => '\n' :: normalizeBreaks rest
  | '\r' :: rest => '\n' :: normalizeBreaks rest
  | c :: rest => c :: normalizeBreaks rest
  | [] => []

structure Cursor where
  rest : List Char
  line : Nat
  column : Nat
  index : Nat
  /-- The length of the whole text, which bounds every loop over it. -/
  size : Nat

namespace Cursor

def start (cs : List Char) : Cursor := ⟨cs, 0, 0, 0, cs.length⟩

def peek (c : Cursor) : Option Char := c.rest.head?

def peekAt (c : Cursor) (n : Nat) : Option Char := c.rest[n]?

/-- Past one character. A byte order mark takes no column. -/
def next (c : Cursor) : Cursor :=
  match c.rest with
  | [] => c
  | ch :: rest =>
    if isBreak ch then ⟨rest, c.line + 1, 0, c.index + 1, c.size⟩
    else ⟨rest, c.line, if ch = '\ufeff' then c.column else c.column + 1, c.index + 1, c.size⟩

def advance (c : Cursor) : Nat → Cursor
  | 0 => c
  | n + 1 => c.next.advance n

/-- The characters up to the first one that is not of a kind, and the position after them. -/
def takeWhile (c : Cursor) (p : Char → Bool) : List Char × Cursor :=
  let taken := c.rest.takeWhile p
  (taken, c.advance taken.length)

def skipWhile (c : Cursor) (p : Char → Bool) : Cursor := (c.takeWhile p).2

def skipSpaces (c : Cursor) : Cursor := c.skipWhile (· = ' ')

/-- Past a line break, with the character that stands for it: most breaks stand for a line feed. -/
def lineBreak? (c : Cursor) : Option (Char × Cursor) :=
  match c.peek with
  | some ch =>
    if ch = '\n' ∨ ch = '\u0085' then some ('\n', c.next)
    else if isBreak ch then some (ch, c.next)
    else none
  | none => none

/-- Past the rest of a line that may hold a comment only. -/
def finishLine? (c : Cursor) : Option Cursor :=
  let c := c.skipSpaces
  let c := if c.peek = some '#' then c.skipWhile fun ch => !isBreak ch else c
  if endsLine c.peek then some c.next else none

/-- Whether a separator of documents is here, at the start of a line. -/
def atSeparator (c : Cursor) : Bool :=
  (c.rest.take 3 = ['-', '-', '-'] || c.rest.take 3 = ['.', '.', '.']) && isGap (c.peekAt 3)

end Cursor

end Lockstep.Yaml
