import Lockstep.Json.Token
import Lockstep.Value.Equality

/-!
Reading JSON texts. Tokens are folded into a stack of the containers that are still open, and of entries
with the same key the first stays in place with the last value.
-/

namespace Lockstep.Json

/-- The greatest number of containers around a value. -/
def depthLimit : Nat := 200

/-- A container that is still open, with the parts read so far, the last one first. An object waits for
the value of a key. -/
inductive Opened where
  | array (items : List Value)
  | object (entries : List (Value × Value)) (key : String)

/-- What may come next. -/
inductive Awaited where
  | value
  | itemOrEnd
  | keyOrEnd (entries : List (Value × Value))
  | key (entries : List (Value × Value))
  | colon (entries : List (Value × Value)) (key : String)
  /-- A value is complete; its container goes on or ends. -/
  | rest (v : Value)

structure Reader where
  awaited : Awaited
  opened : List Opened

namespace Reader

def start : Reader := ⟨.value, []⟩

/-- Opens a container around what follows. -/
def enter (opened : List Opened) (o : Opened) : Option (List Opened) :=
  if opened.length < depthLimit then some (o :: opened) else none

/-- Begins a value with a token. -/
def beginValue (opened : List Opened) : Token → Option Reader
  | .scalar v => some ⟨.rest v, opened⟩
  | .openArray => some ⟨.itemOrEnd, opened⟩
  | .openObject => some ⟨.keyOrEnd [], opened⟩
  | _ => none

def beginKey (opened : List Opened) (entries : List (Value × Value)) : Token → Option Reader
  | .scalar (.text key) => some ⟨.colon entries key, opened⟩
  | _ => none

/-- The object with these entries, the last one first. -/
def objectOf (entries : List (Value × Value)) : Value := Value.dictOf entries.reverse

def next (s : Reader) (t : Token) : Option Reader :=
  match s.awaited with
  | .value => beginValue s.opened t
  | .itemOrEnd => match t with
    | .closeArray => some ⟨.rest (.list []), s.opened⟩
    | t => (enter s.opened (.array [])).bind fun opened => beginValue opened t
  | .keyOrEnd entries => match t with
    | .closeObject => some ⟨.rest (objectOf entries), s.opened⟩
    | t => beginKey s.opened entries t
  | .key entries => beginKey s.opened entries t
  | .colon entries key => match t with
    | .colon => (enter s.opened (.object entries key)).map fun opened => ⟨.value, opened⟩
    | _ => none
  | .rest v => match s.opened, t with
    | .array items :: opened, .comma => some ⟨.value, .array (v :: items) :: opened⟩
    | .array items :: opened, .closeArray => some ⟨.rest (.list (v :: items).reverse), opened⟩
    | .object entries key :: opened, .comma => some ⟨.key ((.text key, v) :: entries), opened⟩
    | .object entries key :: opened, .closeObject =>
      some ⟨.rest (objectOf ((.text key, v) :: entries)), opened⟩
    | _, _ => none

def finish (s : Reader) : Option Value :=
  match s.awaited, s.opened with
  | .rest v, [] => some v
  | _, _ => none

end Reader

def ofTokens? (ts : List Token) : Option Value := do
  let s ← ts.foldlM Reader.next .start
  s.finish

/-- The document that a JSON text holds. -/
def ofText? (s : String) : Option Value := (tokens? s.toList).bind ofTokens?

/-- The document that a file of these bytes holds. -/
def ofBytes? (data : List UInt8) : Option Value := (String.fromUTF8? ⟨data.toArray⟩).bind ofText?

end Lockstep.Json
