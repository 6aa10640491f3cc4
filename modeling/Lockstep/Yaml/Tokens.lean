import Lockstep.Yaml.Token

/-!
Splitting a YAML text into tokens. Block structure is made explicit from the indentation of lines. A simple
key is known as a key only when its colon is found; the token that opens it is then put in front of it.
-/

namespace Lockstep.Yaml

/-- A place where a key may have begun. A required one must turn out to be a key. -/
structure PossibleKey where
  token : Nat
  required : Bool
  index : Nat
  line : Nat
  column : Nat

structure Scanner where
  cursor : Cursor
  tokens : Array Token
  /-- How many flow collections are open. -/
  depth : Nat
  /-- The columns of the open block collections, the innermost first. -/
  columns : List Nat
  keyAllowed : Bool
  /-- The possible keys of the open flow collections and of the block around them, by depth. -/
  possible : List (Nat × PossibleKey)

namespace Scanner

def start (cs : List Char) : Scanner := ⟨.start cs, #[], 0, [], true, []⟩

def inFlow (s : Scanner) : Bool := s.depth ≠ 0

def push (s : Scanner) (t : Token) : Scanner := { s with tokens := s.tokens.push t }

/-- The least column of what belongs to the innermost block collection. -/
def indent (s : Scanner) : Nat :=
  match s.columns with
  | [] => 0
  | column :: _ => column + 1

/-- Past blanks, comments and line breaks. In a block a new line may begin with a key. -/
def skipBlanks : Nat → Scanner → Scanner
  | 0, s => s
  | fuel + 1, s =>
    let c := s.cursor.skipSpaces
    let c := if c.peek = some '#' then c.skipWhile fun ch => !isBreak ch else c
    match c.lineBreak? with
    | none => { s with cursor := c }
    | some (_, c) => skipBlanks fuel { s with cursor := c, keyAllowed := s.keyAllowed || !s.inFlow }

/-- Forgets the possible keys that are on an earlier line or too far away. -/
def dropStale (s : Scanner) : Except Defect Scanner :=
  let stale := fun k : PossibleKey => k.line ≠ s.cursor.line || k.index + 1024 < s.cursor.index
  if s.possible.any fun (_, k) => stale k && k.required then .error .malformed
  else .ok { s with possible := s.possible.filter fun (_, k) => !stale k }

/-- Closes the block collections that a token at some column cannot belong to. -/
def unwind (keeps : Nat → Bool) (s : Scanner) : Scanner :=
  if s.inFlow then s
  else
    let closed := s.columns.takeWhile fun column => !keeps column
    { s with
      columns := s.columns.drop closed.length
      tokens := s.tokens ++ (closed.map fun _ => Token.blockEnd).toArray }

/-- Opens a block collection at a column that is further in than the innermost one. -/
def deepens (s : Scanner) (column : Nat) : Bool := s.indent ≤ column

def dropKey (s : Scanner) : Except Defect Scanner :=
  match s.possible.lookup s.depth with
  | some k =>
    if k.required then .error .malformed
    else .ok { s with possible := s.possible.filter fun (depth, _) => depth != s.depth }
  | none => .ok s

/-- Notes that a key may begin here. At the column of the innermost block collection it must. -/
def noteKey (s : Scanner) : Except Defect Scanner :=
  if s.keyAllowed then do
    let required := !s.inFlow && s.columns.head? = some s.cursor.column
    let s ← s.dropKey
    let k : PossibleKey := ⟨s.tokens.size, required, s.cursor.index, s.cursor.line, s.cursor.column⟩
    pure { s with possible := (s.depth, k) :: s.possible }
  else .ok s

/-- Past a token of the given length. -/
def take (s : Scanner) (length : Nat) (t : Token) : Scanner :=
  { s with cursor := s.cursor.advance length, tokens := s.tokens.push t }

def scanSeparator (s : Scanner) (t : Token) : Except Defect Scanner := do
  let s ← (s.unwind fun _ => false).dropKey
  pure { s.take 3 t with keyAllowed := false }

def scanDirective (s : Scanner) : Except Defect Scanner := do
  let s ← (s.unwind fun _ => false).dropKey
  let (t, c) ← directiveToken s.cursor
  pure { s.push t with cursor := c, keyAllowed := false }

def scanFlowStart (s : Scanner) (t : Token) : Except Defect Scanner := do
  let s ← s.noteKey
  pure { s.take 1 t with depth := s.depth + 1, keyAllowed := true }

def scanFlowEnd (s : Scanner) (t : Token) : Except Defect Scanner := do
  let s ← s.dropKey
  if s.inFlow then pure { s.take 1 t with depth := s.depth - 1, keyAllowed := false }
  else throw .malformed

def scanFlowEntry (s : Scanner) : Except Defect Scanner := do
  let s ← s.dropKey
  pure { s.take 1 .flowEntry with keyAllowed := true }

/-- In a block, an entry or key may only begin where a key may, and it may open a collection. -/
def openBlock (s : Scanner) (t : Token) : Except Defect Scanner :=
  if s.inFlow then .ok s
  else if !s.keyAllowed then .error .malformed
  else if s.deepens s.cursor.column then .ok { s.push t with columns := s.cursor.column :: s.columns }
  else .ok s

def scanBlockEntry (s : Scanner) : Except Defect Scanner := do
  let s ← s.openBlock .blockSequence
  let s ← s.dropKey
  pure { s.take 1 .blockEntry with keyAllowed := true }

def scanKey (s : Scanner) : Except Defect Scanner := do
  let s ← s.openBlock .blockMapping
  let s ← s.dropKey
  pure { s.take 1 .key with keyAllowed := !s.inFlow }

/-- Puts the token of a key in front of what turned out to be one, and before it the opening of a block
mapping if the key is the first of one. -/
def insertKey (s : Scanner) (k : PossibleKey) : Scanner :=
  let s := { s with
    possible := s.possible.filter fun (depth, _) => depth != s.depth
    tokens := s.tokens.insertIdxIfInBounds k.token .key
    keyAllowed := false }
  if !s.inFlow && s.deepens k.column then
    { s with columns := k.column :: s.columns, tokens := s.tokens.insertIdxIfInBounds k.token .blockMapping }
  else s

def scanValue (s : Scanner) : Except Defect Scanner :=
  match s.possible.lookup s.depth with
  | some k => .ok ((s.insertKey k).take 1 .value)
  | none => do
    let s ← s.openBlock .blockMapping
    let s ← s.dropKey
    pure { s.take 1 .value with keyAllowed := !s.inFlow }

def scanProperty (s : Scanner) (read : Cursor → Except Defect (Token × Cursor)) : Except Defect Scanner := do
  let s ← s.noteKey
  let (t, c) ← read s.cursor
  pure { s.push t with cursor := c, keyAllowed := false }

def scanQuoted (s : Scanner) (double : Bool) : Except Defect Scanner :=
  s.scanProperty fun c => (quotedScalar double c).map fun (text, c) => (.scalar text false, c)

def scanBlock (s : Scanner) (folded : Bool) : Except Defect Scanner := do
  let s ← s.dropKey
  let (text, c) ← blockScalar folded s.indent s.cursor
  pure { s.push (.scalar text false) with cursor := c, keyAllowed := true }

def scanPlain (s : Scanner) : Except Defect Scanner := do
  let s ← s.noteKey
  let (text, gap) := plainScalar s.inFlow s.indent s.cursor
  pure { s.push (.scalar text true) with cursor := gap.cursor, keyAllowed := gap.brokeLine }

/-- Whether a plain scalar begins here: at no indicator, or at one that is part of a word. -/
def startsPlain (s : Scanner) (ch : Char) : Bool :=
  let word := !isGap (s.cursor.peekAt 1)
  if ch = '-' then word
  else if ch = '?' ∨ ch = ':' then word && !s.inFlow
  else !(isGap (some ch) || ",[]\x7b\x7d#&*!|>'\x22%@`".toList.contains ch)

/-- The next token, at a visible character. -/
def scanToken (s : Scanner) (ch : Char) : Except Defect Scanner :=
  let c := s.cursor
  let apart := isGap (c.peekAt 1)
  if ch = '%' && c.column = 0 then s.scanDirective
  else if ch = '-' && c.column = 0 && c.atSeparator then s.scanSeparator .documentStart
  else if ch = '.' && c.column = 0 && c.atSeparator then s.scanSeparator .documentEnd
  else if ch = '[' then s.scanFlowStart .flowSequence
  else if ch = '\x7b' then s.scanFlowStart .flowMapping
  else if ch = ']' then s.scanFlowEnd .flowSequenceEnd
  else if ch = '\x7d' then s.scanFlowEnd .flowMappingEnd
  else if ch = ',' then s.scanFlowEntry
  else if ch = '-' && apart then s.scanBlockEntry
  else if ch = '?' && (s.inFlow || apart) then s.scanKey
  else if ch = ':' && (s.inFlow || apart) then s.scanValue
  else if ch = '*' then s.scanProperty fun c => (anchorName c).map fun (name, c) => (.alias name, c)
  else if ch = '&' then s.scanProperty fun c => (anchorName c).map fun (name, c) => (.anchor name, c)
  else if ch = '!' then s.scanProperty tagToken
  else if ch = '|' && !s.inFlow then s.scanBlock false
  else if ch = '>' && !s.inFlow then s.scanBlock true
  else if ch = '\x27' then s.scanQuoted false
  else if ch = '\x22' then s.scanQuoted true
  else if s.startsPlain ch then s.scanPlain
  else .error .malformed

/-- One step: past blanks and over the next token, or to the end of the text, where all blocks close. -/
def step (s : Scanner) : Except Defect (Scanner × Bool) := do
  let s ← (s.skipBlanks (s.cursor.size + 1)).dropStale
  let s := s.unwind fun column => column ≤ s.cursor.column
  match s.cursor.peek with
  | some ch => pure (← s.scanToken ch, true)
  | none => pure (← (s.unwind fun _ => false).dropKey, false)

end Scanner

/-- The tokens of a text. A defect stands after the last token that is certain: one that may still turn out
to be a key is not. -/
structure Tokens where
  read : List Token
  defect? : Option Defect

/-- The tokens that nothing can be put in front of any more. -/
def Scanner.certain (s : Scanner) : List Token :=
  match s.dropStale with
  | .error _ => s.tokens.toList
  | .ok s => s.tokens.toList.take (s.possible.foldl (fun n (_, k) => min n k.token) s.tokens.size)

def scanAll : Nat → Scanner → Tokens
  | 0, s => ⟨s.certain, some .malformed⟩
  | fuel + 1, s => match s.step with
    | .error d => ⟨s.certain, some d⟩
    | .ok (s, true) => scanAll fuel s
    | .ok (s, false) => ⟨s.tokens.toList, none⟩

/-- Splits a text into tokens. A byte order mark at its start is skipped. -/
def tokensOf (cs : List Char) : Tokens :=
  let s := Scanner.start cs
  scanAll (cs.length + 2) (if cs.head? = some '\ufeff' then { s with cursor := s.cursor.next } else s)

end Lockstep.Yaml
