import Lockstep.Text.Surrogate
import Lockstep.Number.Integer
import Lockstep.Number.Numeral
import Lockstep.Value.Basic

/-!
The tokens of a JSON text. A machine reads one character at a time, so a text is split by folding over it.
Besides the numbers of the standard, `NaN` and the two infinities are numbers.
-/

namespace Lockstep.Json

inductive Token where
  | openArray
  | closeArray
  | openObject
  | closeObject
  | comma
  | colon
  | scalar (v : Value)

/-- The marks that are tokens of one character. -/
def mark? (c : Char) : Option Token :=
  if c = '[' then some .openArray
  else if c = ']' then some .closeArray
  else if c = '\x7b' then some .openObject
  else if c = '\x7d' then some .closeObject
  else if c = ',' then some .comma
  else if c = ':' then some .colon
  else none

def isBlank (c : Char) : Bool := c = ' ' ∨ c = '\t' ∨ c = '\n' ∨ c = '\r'

/-- Whole digits: no leading zero unless it is the only digit. -/
def isWhole : List Char → Bool
  | [] => false
  | [_] => true
  | c :: cs => c != '0' && cs.length < digitLimit

/-- The number a numeral stands for: an integer unless it has a point or an exponent. -/
def ofNumeral? (n : Numeral) : Option Value :=
  if n.sign = some false ∨ !isWhole n.whole ∨ n.fraction = some [] then none
  else if n.fraction.isNone && n.exponent.isNone then
    some (.int (if n.isNegative then -(n.coefficient : Int) else n.coefficient))
  else some (.float n.toBinary64)

/-- The value of a bare word. -/
def ofWord? (cs : List Char) : Option Value :=
  match Numeral.split? cs with
  | some n => ofNumeral? n
  | none =>
    let word := String.ofList cs
    if word = "null" then some .null
    else if word = "true" then some (.bool true)
    else if word = "false" then some (.bool false)
    else if word = "NaN" then some (.float .nan)
    else if word = "Infinity" then some (.float (.infinite false))
    else if word = "-Infinity" then some (.float (.infinite true))
    else none

/-- The character that a one-letter escape stands for. -/
def unescaped? (c : Char) : Option Char :=
  if c = '\x22' ∨ c = '\\' ∨ c = '/' then some c
  else if c = 'n' then some '\n'
  else if c = 'r' then some '\r'
  else if c = 't' then some '\t'
  else if c = 'b' then some '\x08'
  else if c = 'f' then some '\x0c'
  else none

/-- What the characters just read belong to. Texts and words are kept with the last character first;
texts as codes, because an escape may give half of a surrogate pair. -/
inductive Mode where
  | between
  | word (read : List Char)
  | text (read : List Nat)
  | escape (read : List Nat)
  /-- After `\u`, with the digits still to come and the value of those already read. -/
  | code (read : List Nat) (left value : Nat)

/-- A text that has been split so far; the last token comes first. -/
structure Lexer where
  mode : Mode
  tokens : List Token

namespace Lexer

def start : Lexer := ⟨.between, []⟩

/-- Starts with a character outside of words and texts. -/
def begin (tokens : List Token) (c : Char) : Lexer :=
  match mark? c with
  | some t => ⟨.between, t :: tokens⟩
  | none =>
    if isBlank c then ⟨.between, tokens⟩
    else if c = '\x22' then ⟨.text [], tokens⟩
    else ⟨.word [c], tokens⟩

/-- Whether a character ends a word. -/
def endsWord (c : Char) : Bool := (mark? c).isSome || isBlank c || c = '\x22'

def next (s : Lexer) (c : Char) : Option Lexer :=
  match s.mode with
  | .between => some (begin s.tokens c)
  | .word read =>
    if endsWord c then (ofWord? read.reverse).map fun v => begin (.scalar v :: s.tokens) c
    else some ⟨.word (c :: read), s.tokens⟩
  | .text read =>
    if c = '\x22' then
      (charsOfCodes? none read.reverse).map fun cs => ⟨.between, .scalar (.text (String.ofList cs)) :: s.tokens⟩
    else if c = '\\' then some ⟨.escape read, s.tokens⟩
    else if c < ' ' then none
    else some ⟨.text (c.toNat :: read), s.tokens⟩
  | .escape read =>
    if c = 'u' then some ⟨.code read 4 0, s.tokens⟩
    else (unescaped? c).map fun d => ⟨.text (d.toNat :: read), s.tokens⟩
  | .code read left value => (digitValue? 16 c).map fun d =>
    if left ≤ 1 then ⟨.text ((value * 16 + d) :: read), s.tokens⟩
    else ⟨.code read (left - 1) (value * 16 + d), s.tokens⟩

/-- The tokens of a text that ends here. -/
def finish (s : Lexer) : Option (List Token) :=
  match s.mode with
  | .between => some s.tokens.reverse
  | .word read => (ofWord? read.reverse).map fun v => (.scalar v :: s.tokens).reverse
  | _ => none

end Lexer

/-- The tokens of a JSON text. -/
def tokens? (cs : List Char) : Option (List Token) := do
  let s ← cs.foldlM Lexer.next .start
  s.finish

end Lockstep.Json
