import Lockstep.Number.Numeral
import Lockstep.Text.Surrogate
import Lockstep.Yaml.Cursor

/-!
The texts of scalars: quoted on one or more lines, plain, or in a block of their own. Line breaks inside of
a scalar are folded: a single one is a space, and of several the first is dropped.
-/

namespace Lockstep.Yaml

/-- What folding makes of a break that is followed by further breaks. -/
def foldBreak (first : Char) (breaks : List Char) : List Char :=
  if first ≠ '\n' then first :: breaks
  else if breaks.isEmpty then [' ']
  else breaks

/-- The characters that an escape of one letter stands for. -/
def escapes : List (Char × Nat) := [
  ('0', 0), ('a', 7), ('b', 8), ('t', 9), ('\t', 9), ('n', 10), ('v', 11), ('f', 12), ('r', 13), ('e', 27),
  (' ', 32), ('\x22', 34), ('\\', 92), ('/', 47), ('N', 0x85), ('_', 0xa0), ('L', 0x2028), ('P', 0x2029)]

/-- How many hexadecimal digits an escape takes. -/
def codeLength? (c : Char) : Option Nat :=
  if c = 'x' then some 2 else if c = 'u' then some 4 else if c = 'U' then some 8 else none

/-- The code of an escape with this many digits, and the position after it. -/
def escapeCode (length : Nat) (c : Cursor) : Except Defect (Nat × Cursor) :=
  let digits := c.rest.take length
  if digits.length < length then .error .malformed
  else match natOfDigits? 16 digits with
    | none => .error .malformed
    | some code =>
      if 0x80000000 ≤ code then .error (.scalar .overflow)
      else if 0x110000 ≤ code then .error (.scalar .codePointRange)
      else .ok (code, c.advance length)

/-- The further breaks inside of a quoted scalar, with the blanks around them dropped. -/
def quotedBreaks : Nat → Cursor → Except Defect (List Char × Cursor)
  | 0, _ => .error .malformed
  | fuel + 1, c =>
    if c.atSeparator then .error .malformed
    else
      let c := c.skipWhile fun ch => ch = ' ' || ch = '\t'
      match c.lineBreak? with
      | none => .ok ([], c)
      | some (b, c) => (quotedBreaks fuel c).map fun (bs, c) => (b :: bs, c)

def codesOf (cs : List Char) : List Nat := cs.map Char.toNat

/-- An escape, after its backslash: its codes and the position after it. -/
def escapeAt (c : Cursor) : Except Defect (List Nat × Cursor) :=
  match c.peek with
  | none => .error .malformed
  | some ch => match escapes.lookup ch, codeLength? ch, c.lineBreak? with
    | some code, _, _ => .ok ([code], c.next)
    | none, some length, _ => (escapeCode length c.next).map fun (code, c) => ([code], c)
    | none, none, some (_, c) => (quotedBreaks (c.size + 1) c).map fun (bs, c) => (codesOf bs, c)
    | none, none, none => .error .malformed

/-- Blanks inside of a quoted scalar: kept within a line, folded around line breaks. -/
def quotedBlanks (c : Cursor) : Except Defect (List Nat × Cursor) :=
  let (blanks, c) := c.takeWhile fun ch => ch = ' ' || ch = '\t'
  match c.lineBreak? with
  | none => .ok (codesOf blanks, c)
  | some (b, c) =>
    (quotedBreaks (c.size + 1) c).map fun (bs, c) => (codesOf (foldBreak b bs), c)

/-- The rest of a quoted scalar, as codes because an escape may give half of a surrogate pair. -/
def quotedCodes (double : Bool) : Nat → Cursor → Except Defect (List Nat × Cursor)
  | 0, _ => .error .malformed
  | fuel + 1, c => match c.peek with
    | none => .error .malformed
    | some ch =>
      if ch = (if double then '\x22' else '\x27') then
        if !double && c.peekAt 1 = some '\x27' then
          (quotedCodes double fuel (c.advance 2)).map fun (rest, c) => (ch.toNat :: rest, c)
        else .ok ([], c.next)
      else do
        let (codes, c) ←
          if double && ch = '\\' then escapeAt c.next
          else if isGap (some ch) then quotedBlanks c
          else pure ([ch.toNat], c.next)
        let (rest, c) ← quotedCodes double fuel c
        pure (codes ++ rest, c)

/-- A quoted scalar, from its opening quote. A surrogate without its partner becomes the replacement
character. -/
def quotedScalar (double : Bool) (c : Cursor) : Except Defect (String × Cursor) := do
  let (codes, c) ← quotedCodes double (c.size + 1) c.next
  pure (String.ofList ((charsOfCodes? (some '\ufffd') codes).getD []), c)

def isFlowMark (c : Char) : Bool := c = ',' ∨ c = '[' ∨ c = ']' ∨ c = '\x7b' ∨ c = '\x7d'

/-- The characters of a plain scalar up to the first blank, mapping colon or mark of a flow collection. -/
def plainRun (flow : Bool) : List Char → List Char
  | [] => []
  | c :: rest =>
    let colon := c = ':' && (isGap rest.head? || (flow && rest.head?.any isFlowMark))
    if isGap (some c) || colon || (flow && (isFlowMark c || c = '?')) then [] else c :: plainRun flow rest

/-- The further breaks inside of a plain scalar, with the spaces around them dropped; `none` where a
separator of documents follows. -/
def plainBreaks : Nat → Cursor → Option (List Char) × Cursor
  | 0, c => (none, c)
  | fuel + 1, c =>
    let c := c.skipSpaces
    match c.lineBreak? with
    | none => (some [], c)
    | some (b, c) =>
      if c.atSeparator then (none, c)
      else
        let (bs, c) := plainBreaks fuel c
        (bs.map (b :: ·), c)

/-- The blanks after a part of a plain scalar. -/
structure PlainGap where
  /-- What the blanks stand for if the scalar goes on; nothing if it ends. -/
  text : List Char
  cursor : Cursor
  brokeLine : Bool

def plainGap (c : Cursor) : PlainGap :=
  let (spaces, c) := c.takeWhile (· = ' ')
  match c.lineBreak? with
  | none => ⟨spaces, c, false⟩
  | some (b, c) =>
    if c.atSeparator then ⟨[], c, true⟩
    else match plainBreaks (c.size + 1) c with
      | (some bs, c) => ⟨foldBreak b bs, c, true⟩
      | (none, c) => ⟨[], c, true⟩

/-- A plain scalar after the given gap. In a block it goes on while lines are indented enough. -/
def plainText (flow : Bool) (indent : Nat) : Nat → PlainGap → List Char × PlainGap
  | 0, gap => ([], gap)
  | fuel + 1, gap =>
    let c := gap.cursor
    let part := if c.peek = some '#' then [] else plainRun flow c.rest
    if part.isEmpty then ([], gap)
    else
      let following := plainGap (c.advance part.length)
      let ends := following.text.isEmpty || following.cursor.peek = some '#' ||
        (!flow && following.cursor.column < indent)
      let (rest, last) := if ends then ([], following) else plainText flow indent fuel following
      (gap.text ++ part ++ rest, last)

/-- A plain scalar, and the blanks that end it. -/
def plainScalar (flow : Bool) (indent : Nat) (c : Cursor) : String × PlainGap :=
  let (text, gap) := plainText flow indent (c.size + 1) ⟨[], c, false⟩
  (String.ofList text, gap)

/-- What is done with the line breaks at the end of a block. -/
inductive Chomping where
  | clip
  | strip
  | keep
  deriving DecidableEq

def chomping? (c : Cursor) : Option Chomping :=
  if c.peek = some '+' then some .keep else if c.peek = some '-' then some .strip else none

def blockDigit? (c : Cursor) : Option Nat := c.peek.bind (digitValue? 10)

/-- The two indicators after the mark of a block, in either order, and the rest of their line. -/
def blockHeader (c : Cursor) : Except Defect (Chomping × Option Nat × Cursor) := do
  let (chomping, increment, c) := match chomping? c with
    | some chomping =>
      let c := c.next
      match blockDigit? c with
      | some d => (chomping, some d, c.next)
      | none => (chomping, none, c)
    | none => match blockDigit? c with
      | some d =>
        let c := c.next
        match chomping? c with
        | some chomping => (chomping, some d, c.next)
        | none => (.clip, some d, c)
      | none => (.clip, none, c)
  if increment = some 0 || !endsWord c.peek then throw .malformed
  match c.finishLine? with
  | some c => pure (chomping, increment, c)
  | none => throw .malformed

/-- The empty lines at the start of a block, and the widest indentation among them and the first line. -/
def blockIndentation : Nat → Cursor → List Char × Nat × Cursor
  | 0, c => ([], 0, c)
  | fuel + 1, c =>
    let c := c.skipSpaces
    match c.lineBreak? with
    | none => ([], c.column, c)
    | some (b, after) =>
      let (bs, widest, last) := blockIndentation fuel after
      (b :: bs, max c.column widest, last)

/-- Up to so many spaces, as far as the given column. -/
def skipIndent (indent : Nat) (c : Cursor) : Cursor :=
  c.advance ((c.rest.take (indent - c.column)).takeWhile (· = ' ')).length

/-- The empty lines before the next line of a block. -/
def blockBreaks (indent : Nat) : Nat → Cursor → List Char × Cursor
  | 0, c => ([], c)
  | fuel + 1, c =>
    let c := skipIndent indent c
    match c.lineBreak? with
    | none => ([], c)
    | some (b, c) =>
      let (bs, c) := blockBreaks indent fuel c
      (b :: bs, c)

/-- The lines of a block, from the start of one after some empty lines. The breaks at the end are not
part of the text but given back: that of the last line, and those of the empty lines. -/
def blockLines (folded : Bool) (indent : Nat) :
    Nat → List Char → Cursor → List Char × List Char × List Char × Cursor
  | 0, breaks, c => ([], [], breaks, c)
  | fuel + 1, breaks, c =>
    if c.column ≠ indent || c.peek.isNone then ([], [], breaks, c)
    else
      let startsBlank := fun c : Cursor => c.peek = some ' ' || c.peek = some '\t'
      let (line, after) := c.takeWhile fun ch => !isBreak ch
      let (ending, afterBreak) := match after.lineBreak? with
        | some (b, after) => ([b], after)
        | none => ([], after)
      let (following, next) := blockBreaks indent (afterBreak.size + 1) afterBreak
      if next.column = indent && next.peek.isSome then
        let joint :=
          if folded && ending = ['\n'] && !startsBlank c && !startsBlank next then
            (if following.isEmpty then [' '] else [])
          else ending
        let (rest, last) := blockLines folded indent fuel following next
        (breaks ++ line ++ joint ++ rest, last)
      else (breaks ++ line, ending, following, next)

/-- A block scalar, from its mark. Its lines are indented more than the collection around it. -/
def blockScalar (folded : Bool) (least : Nat) (c : Cursor) : Except Defect (String × Cursor) := do
  let (chomping, increment, c) ← blockHeader c.next
  let least := max 1 least
  let fuel := c.size + 1
  let (indent, breaks, c) := match increment with
    | some n =>
      let indent := least + n - 1
      (indent, blockBreaks indent fuel c)
    | none =>
      let (breaks, widest, c) := blockIndentation fuel c
      (max least widest, breaks, c)
  let (text, ending, breaks, c) := blockLines folded indent fuel breaks c
  let tail := match chomping with
    | .strip => []
    | .clip => ending
    | .keep => ending ++ breaks
  pure (String.ofList (text ++ tail), c)

end Lockstep.Yaml
