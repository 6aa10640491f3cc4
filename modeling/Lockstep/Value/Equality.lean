import Lockstep.Value.Basic

/-!
General equality of host values: numbers by their exact mathematical value whatever their type, booleans
as the numbers 0 and 1, containers by their contents, and unlike kinds never.
-/

namespace Lockstep

namespace Atom

/-- The value of a numeric atom as a real and an imaginary part. -/
def number? : Atom → Option (Quantity × Quantity)
  | .decimal d => some (d.quantity, .finite 0)
  | .fraction q => some (.finite q, .finite 0)
  | .complex re im => some (re.quantity, im.quantity)
  | _ => none

def same : Atom → Atom → Bool
  | .dateTime a, .dateTime b => a.same b
  | a, b => a == b

end Atom

/-- Whether sequences of these kinds can be equal: a named tuple is a tuple. -/
def SequenceKind.comparable : SequenceKind → SequenceKind → Bool
  | .list, .list => true
  | .deque, .deque => true
  | .range, .range => true
  | .tuple, .tuple => true
  | .tuple, .named .. => true
  | .named .., .tuple => true
  | .named .., .named .. => true
  | _, _ => false

namespace Value

/-- The value of a number as a real and an imaginary part. -/
def number? : Value → Option (Quantity × Quantity)
  | .bool b => some (.finite (if b then 1 else 0), .finite 0)
  | .int n => some (.finite n, .finite 0)
  | .float x => some (x.quantity, .finite 0)
  | .atom a => a.number?
  | _ => none

def sameNumber (a b : Quantity × Quantity) : Bool := a.1.equal b.1 && a.2.equal b.2

mutual

/-- Equality of two host values. -/
def same : Value → Value → Bool
  | .text a, w => match w with | .text b => a == b | _ => false
  | .null, w => match w with | .null => true | _ => false
  | .bytes _ a, w => match w with | .bytes _ b => a == b | _ => false
  | .sequence k xs, w => match w with | .sequence k' ys => k.comparable k' && sameItems xs ys | _ => false
  | .set _ xs, w => match w with | .set _ ys => xs.length == ys.length && allIn xs ys | _ => false
  | .dict es, w => match w with | .dict fs => es.length == fs.length && sameEntries es fs | _ => false
  | .member cls name _, w => match w with | .member cls' name' _ => cls == cls' && name == name' | _ => false
  | .record cls fs, w => match w with | .record cls' gs => cls == cls' && sameFields fs gs | _ => false
  | .foreign a, w => match w with | .foreign b => a.shared && a == b | _ => false
  | .knot a, w => match w with | .knot b => a == b | _ => false
  | .bool a, w => numeric (.bool a) w
  | .int a, w => numeric (.int a) w
  | .float a, w => numeric (.float a) w
  | .atom a, w => match w with
    | .atom b => match a.number?, b.number? with
      | some x, some y => sameNumber x y
      | none, none => a.same b
      | _, _ => false
    | w => numeric (.atom a) w
where
  numeric (v w : Value) : Bool := match v.number?, w.number? with
    | some x, some y => sameNumber x y
    | _, _ => false

def sameItems : List Value → List Value → Bool
  | [], ys => ys.isEmpty
  | x :: xs, ys => match ys with | y :: ys => same x y && sameItems xs ys | [] => false

/-- Every value of the first list equals one of the second. -/
def allIn : List Value → List Value → Bool
  | [], _ => true
  | x :: xs, ys => ys.any (fun y => same x y) && allIn xs ys

/-- Every key of the first dictionary is in the second with an equal value. -/
def sameEntries : List (Value × Value) → List (Value × Value) → Bool
  | [], _ => true
  | (k, v) :: es, fs =>
    (match fs.find? (fun e => same k e.1) with | some e => same v e.2 | none => false) && sameEntries es fs

def sameFields : List (String × Value) → List (String × Value) → Bool
  | [], gs => gs.isEmpty
  | (f, v) :: fs, gs => match gs with
    | (g, w) :: gs => f == g && same v w && sameFields fs gs
    | [] => false

end

/-- The value stored under a key that equals the given one. -/
def findEntry? (entries : List (Value × Value)) (key : Value) : Option Value :=
  (entries.find? fun e => key.same e.1).map (·.2)

/-- Stores a value under a key: in place of the value of an equal key, or else at the end. -/
def insertEntry {α : Type} (key : Value) (value : α) : List (Value × α) → List (Value × α)
  | [] => [(key, value)]
  | (k, v) :: rest => if key.same k then (k, value) :: rest else (k, v) :: insertEntry key value rest

/-- The dictionary with these entries; of equal keys the first stays, with the last value. -/
def dictOf (entries : List (Value × Value)) : Value :=
  .dict (entries.foldl (fun d (k, v) => insertEntry k v d) [])

end Value

end Lockstep
