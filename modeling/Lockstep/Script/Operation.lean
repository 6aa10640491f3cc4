import Lockstep.Fault
import Lockstep.Value.Equality

/-!
Projections written as data: lists of operations that are applied from left to right.
-/

namespace Lockstep.Script

inductive Operation where
  | same
  | const (v : Value)
  | wrap
  | attr (field : String)
  | item (key : Value)
  | length
  | add (n : Int)
  | fail

namespace Operation

def name : Operation → String
  | .same => "id"
  | .const _ => "const"
  | .wrap => "wrap"
  | .attr _ => "attr"
  | .item _ => "item"
  | .length => "len"
  | .add _ => "add"
  | .fail => "fail"

/-- The value of a field that a record or a named tuple declares. -/
def field? (name : String) : Value → Option Value
  | .record _ fields => fields.lookup name
  | .sequence (.named _ names) items => (names.zip items).lookup name
  | _ => none

/-- The entry of a dictionary, or an item counted from the start. -/
def item? (key : Value) : Value → Option Value
  | .dict entries => Value.findEntry? entries key
  | .sequence kind items => match kind, key with
    | .list, .int (.ofNat n) => items[n]?
    | .tuple, .int (.ofNat n) => items[n]?
    | .named .., .int (.ofNat n) => items[n]?
    | _, _ => none
  | _ => none

def length? : Value → Option Nat
  | .text s => some s.length
  | .dict entries => some entries.length
  | .sequence kind items => match kind with
    | .list => some items.length
    | .tuple => some items.length
    | .named .. => some items.length
    | _ => none
  | _ => none

/-- The projected value, if the operation fits. -/
def result? (v : Value) : Operation → Option Value
  | .same => some v
  | .const w => some w
  | .wrap => some (.list [v])
  | .attr field => field? field v
  | .item key => item? key v
  | .length => (length? v).map fun n => .int n
  | .add n => match v with
    | .int m => some (.int (m + n))
    | _ => none
  | .fail => none

def apply (v : Value) (op : Operation) : Except Fault Value :=
  match result? v op with
  | some w => .ok w
  | none => .error (.projection op.name)

end Operation

def project (ops : List Operation) (v : Value) : Except Fault Value := ops.foldlM Operation.apply v

end Lockstep.Script
