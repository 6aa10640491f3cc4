import Lockstep.Value.Equality

/-!
The order of dictionary keys: texts by code point, numbers by value. A number without a value comes neither
before nor after another one, so where it ends up depends on the keys that it is compared with.
-/

namespace Lockstep

namespace Value

def isText : Value → Bool
  | .text _ => true
  | _ => false

/-- A number that a dictionary key may be. -/
def isPlainNumber : Value → Bool
  | .bool _ => true
  | .int _ => true
  | .float _ => true
  | _ => false

/-- Whether keys can be sorted: a single one, or all texts, or all numbers. -/
def sortable (keys : List Value) : Bool :=
  keys.length ≤ 1 || keys.all isText || keys.all isPlainNumber

/-- Whether a key comes before another one: texts by code point, numbers by value. -/
def keyLess (a b : Value) : Bool :=
  match a, b with
  | .text s, .text t => s < t
  | a, b => match a.number?, b.number? with
    | some x, some y => x.1.less y.1
    | _, _ => false

/-- Whether a key is in order with all others of its kind. -/
def isOrdered (key : Value) : Bool :=
  match key.number? with
  | some x => x.1 ≠ .undefined
  | none => true

/-- The place of a key from `low` up to `high`, found by halving: after the entries that it was compared with
and does not come before. -/
def placeOf {α : Type} (entries : List (Value × α)) (key : Value) (low high : Nat) : Nat :=
  if low < high then
    let middle := (low + high) / 2
    if entries[middle]?.any fun e => keyLess key e.1 then placeOf entries key low middle
    else placeOf entries key (middle + 1) high
  else low
termination_by high - low

/-- Puts an entry among others that are in order. -/
def place {α : Type} (entries : List (Value × α)) (e : Value × α) : List (Value × α) :=
  entries.insertIdx (placeOf entries e.1 0 entries.length) e

/-- The longest beginning in which each key is related to the next, and the rest. -/
def splitRun {α : Type} (related : Value → Value → Bool) :
    List (Value × α) → List (Value × α) × List (Value × α)
  | e :: f :: rest =>
    if related e.1 f.1 then
      let (run, rest) := splitRun related (f :: rest)
      (e :: run, rest)
    else ([e], f :: rest)
  | entries => (entries, [])

/-- Places entries one after another among those of the run that they begin with, turned round if it falls. -/
def orderByPlacing {α : Type} (entries : List (Value × α)) : List (Value × α) :=
  let (falling, rest) := splitRun (fun a b => keyLess b a) entries
  if 1 < falling.length then rest.foldl place falling.reverse
  else
    let (run, rest) := splitRun (fun a b => !keyLess b a) entries
    rest.foldl place run

/-- Entries in the order of their keys. -/
def orderEntries {α : Type} (entries : List (Value × α)) : List (Value × α) :=
  if entries.all fun e => e.1.isOrdered then entries.mergeSort fun a b => !keyLess b.1 a.1
  else orderByPlacing entries

end Value

end Lockstep
