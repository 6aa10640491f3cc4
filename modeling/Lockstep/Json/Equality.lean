import Lockstep.Value.Equality

/-!
Structural equality of JSON documents. Booleans and numbers are distinct types, the order of object
entries is ignored, the order of array items is significant, and all kinds of arrays compare alike.
-/

namespace Lockstep

namespace Value

mutual

/-- Whether two documents are equal as JSON data. -/
def jsonEqual : Value → Value → Bool
  | .bool a, w => match w with | .bool b => a == b | _ => false
  | .null, w => match w with | .null => true | _ => false
  | .text a, w => match w with | .text b => a == b | _ => false
  | .dict es, w => match w.entries? with
    | some fs => es.length == fs.length && jsonEqualEntries es fs
    | none => false
  | .sequence _ xs, w => match w.items? with
    | some ys => jsonEqualItems xs ys
    | none => false
  | .bytes true data, w => match w.items? with
    | some ys => numbersEqual data ys
    | none => false
  | .knot a, w => match w with | .knot b => a == b | _ => false
  | v, w => match w with | .bool _ => false | w => v.same w
where
  /-- Bytes against items that must be numbers and no booleans. -/
  numbersEqual : List UInt8 → List Value → Bool
  | [], ys => ys.isEmpty
  | b :: bs, ys => match ys with
    | y :: ys => (match y with | .bool _ => false | y => same (.int b.toNat) y) && numbersEqual bs ys
    | [] => false

def jsonEqualItems : List Value → List Value → Bool
  | [], ys => ys.isEmpty
  | x :: xs, ys => match ys with
    | y :: ys => jsonEqual x y && jsonEqualItems xs ys
    | [] => false

def jsonEqualEntries : List (Value × Value) → List (Value × Value) → Bool
  | [], _ => true
  | (k, v) :: es, fs =>
    (match findEntry? fs k with | some w => jsonEqual v w | none => false) && jsonEqualEntries es fs

end

end Value

end Lockstep
