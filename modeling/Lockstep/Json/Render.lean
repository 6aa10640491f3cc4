import Lockstep.Number.Integer
import Lockstep.Number.Layout
import Lockstep.Value.Order

/-!
The canonical text of a document: no blanks, object entries in the order of their keys, and only quotes,
backslashes and control characters escaped.
-/

namespace Lockstep

namespace Json

/-- One character inside a quoted text. -/
def escapedChar (c : Char) : List Char :=
  if c = '\x22' then ['\\', '\x22']
  else if c = '\\' then ['\\', '\\']
  else if c = '\n' then ['\\', 'n']
  else if c = '\r' then ['\\', 'r']
  else if c = '\t' then ['\\', 't']
  else if c = '\x08' then ['\\', 'b']
  else if c = '\x0c' then ['\\', 'f']
  else if c < ' ' then '\\' :: 'u' :: hexDigits 4 c.toNat
  else [c]

def quote (s : String) : String :=
  String.ofList ('\x22' :: (s.toList.flatMap escapedChar ++ ['\x22']))

end Json

namespace Value

/-- The text that stands for a dictionary key. -/
def renderKey : Value → Except Fault String
  | .null => .ok "null"
  | .bool b => .ok (if b then "true" else "false")
  | .int n => writeInt n
  | .float x => .ok (NumberLayout.document.text x)
  | .text s => .ok s
  | _ => .error .unrenderable

/-- An entry whose value has been rendered already, as a text. -/
def renderEntry (entry : Value × Except Fault String) : Except Fault String := do
  let key ← renderKey entry.1
  let value ← entry.2
  pure (Json.quote key ++ ":" ++ value)

/-- Entries whose values have been rendered already, put in order and written as an object. -/
def renderObject (entries : List (Value × Except Fault String)) : Except Fault String := do
  if !sortable (entries.map (·.1)) then throw .unrenderable
  let parts ← (orderEntries entries).mapM renderEntry
  pure ("\x7b" ++ ",".intercalate parts ++ "\x7d")

mutual

/-- The canonical text of a document. -/
def render : Value → Except Fault String
  | .null => .ok "null"
  | .bool b => .ok (if b then "true" else "false")
  | .int n => writeInt n
  | .float x => .ok (NumberLayout.document.text x)
  | .text s => .ok (Json.quote s)
  | .sequence kind items => match kind with
    | .deque => .error .unrenderable
    | .range => .error .unrenderable
    | _ => (renderItems items).map fun parts => "[" ++ ",".intercalate parts ++ "]"
  | .dict entries => renderObject (renderValues entries)
  | .knot _ => .error .circular
  | _ => .error .unrenderable

/-- The texts of items in order, up to the first that has none. -/
def renderItems : List Value → Except Fault (List String)
  | [] => .ok []
  | x :: xs => do
    let part ← render x
    let parts ← renderItems xs
    pure (part :: parts)

/-- The entries of a dictionary with their values rendered, each on its own. -/
def renderValues : List (Value × Value) → List (Value × Except Fault String)
  | [] => []
  | (k, v) :: rest => (k, render v) :: renderValues rest

end

end Value

end Lockstep
