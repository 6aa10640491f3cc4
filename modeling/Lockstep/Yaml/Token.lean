import Lockstep.Number.Integer
import Lockstep.Yaml.Scalar

/-!
The tokens of a YAML text, and those that are a name after a mark: anchors, aliases, tags and directives.
-/

namespace Lockstep.Yaml

inductive Directive where
  | version (major minor : Nat)
  | tagHandle (handle start : String)
  | other
  deriving DecidableEq

inductive Token where
  | directive (d : Directive)
  | documentStart
  | documentEnd
  | blockSequence
  | blockMapping
  | blockEnd
  | flowSequence
  | flowSequenceEnd
  | flowMapping
  | flowMappingEnd
  | blockEntry
  | flowEntry
  | key
  | value
  | alias (name : String)
  | anchor (name : String)
  | tag (handle : Option String) (suffix : String)
  | scalar (text : String) (plain : Bool)
  deriving DecidableEq

def isNameChar (c : Char) : Bool := c.isAlphanum || c = '-' || c = '_'

/-- The characters that may follow the name of an anchor or alias. -/
def endsName : Option Char → Bool
  | none => true
  | some c => isGap (some c) || "?:,]\x7d%@`".toList.contains c

/-- The name of an anchor or alias, from its mark. -/
def anchorName (c : Cursor) : Except Defect (String × Cursor) :=
  let (name, c) := c.next.takeWhile isNameChar
  if name.isEmpty || !endsName c.peek then .error .malformed else .ok (String.ofList name, c)

def isUriChar (c : Char) : Bool := c.isAlphanum || "-;/?:@&=+$,_.!~*'()[]".toList.contains c

/-- The bytes of a run of percent escapes. -/
def uriBytes : List Char → Except Defect (List UInt8 × List Char)
  | '%' :: a :: b :: rest => match natOfDigits? 16 [a, b] with
    | none => .error .malformed
    | some n => (uriBytes rest).map fun (bytes, rest) => (UInt8.ofNat n :: bytes, rest)
  | '%' :: _ => .error .malformed
  | rest => .ok ([], rest)

/-- The characters of a tag's URI with its escapes resolved. Escaped bytes that stand together are the
UTF-8 text of one run. -/
def uriChars : Nat → Cursor → Except Defect (List Char × Cursor)
  | 0, _ => .error .malformed
  | fuel + 1, c =>
    if c.peek = some '%' then do
      let (bytes, rest) ← uriBytes c.rest
      match String.fromUTF8? ⟨bytes.toArray⟩ with
      | none => throw .malformed
      | some s =>
        let (cs, c) ← uriChars fuel (c.advance (c.rest.length - rest.length))
        pure (s.toList ++ cs, c)
    else
      let (part, c) := c.takeWhile isUriChar
      if part.isEmpty then .ok ([], c) else (uriChars fuel c).map fun (cs, c) => (part ++ cs, c)

def tagUri (c : Cursor) : Except Defect (String × Cursor) := do
  let (cs, c) ← uriChars (c.size + 1) c
  if cs.isEmpty then throw .malformed
  pure (String.ofList cs, c)

/-- A tag handle with its exclamation marks: the primary one, the secondary one, or a named one. -/
def tagHandle (c : Cursor) : Except Defect (String × Cursor) :=
  if c.peek ≠ some '!' then .error .malformed
  else if c.peekAt 1 = some ' ' then .ok ("!", c.next)
  else
    let (name, c) := c.next.takeWhile isNameChar
    if c.peek = some '!' then .ok (String.ofList ('!' :: name ++ ['!']), c.next) else .error .malformed

/-- Whether a handle with a name follows an exclamation mark: there is a second one in the word. -/
def hasHandle (c : Cursor) : Bool := (c.next.rest.takeWhile fun ch => !endsWord (some ch)).contains '!'

/-- A tag, from its exclamation mark: a URI in angle brackets, the mark alone, or a handle and the rest. -/
def tagToken (c : Cursor) : Except Defect (Token × Cursor) := do
  let (token, c) ←
    if c.peekAt 1 = some '<' then do
      let (uri, c) ← tagUri (c.advance 2)
      if c.peek ≠ some '>' then throw .malformed
      pure (Token.tag none uri, c.next)
    else if isGap (c.peekAt 1) then pure (.tag none "!", c.next)
    else do
      let (handle, c) ← if hasHandle c then tagHandle c else pure ("!", c.next)
      let (suffix, c) ← tagUri c
      pure (.tag (some handle) suffix, c)
  if endsWord c.peek then pure (token, c) else throw .malformed

def versionNumber (c : Cursor) : Except Defect (Nat × Cursor) :=
  let (digits, c) := c.takeWhile Char.isDigit
  match natOfDigits? 10 digits with
  | none => .error .malformed
  | some n => if digitLimit < digits.length then .error (.scalar .malformedNumber) else .ok (n, c)

/-- A directive, from its percent sign to the end of its line. -/
def directiveToken (c : Cursor) : Except Defect (Token × Cursor) := do
  let (name, c) := c.next.takeWhile isNameChar
  if name.isEmpty || !endsWord c.peek then throw .malformed
  let (d, c) ←
    if name = "YAML".toList then do
      let (major, c) ← versionNumber c.skipSpaces
      if c.peek ≠ some '.' then throw .malformed
      let (minor, c) ← versionNumber c.next
      if !endsWord c.peek then throw .malformed
      pure (Directive.version major minor, c)
    else if name = "TAG".toList then do
      let (handle, c) ← tagHandle c.skipSpaces
      if c.peek ≠ some ' ' then throw .malformed
      let (start, c) ← tagUri c.skipSpaces
      if !endsWord c.peek then throw .malformed
      pure (.tagHandle handle start, c)
    else pure (.other, c.skipWhile fun ch => !isBreak ch)
  match c.finishLine? with
  | some c => pure (.directive d, c)
  | none => throw .malformed

end Lockstep.Yaml
