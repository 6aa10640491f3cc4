import Lockstep.Number.Integer
import Lockstep.Value.Equality

/-!
Single lookups into a document, by object key or by array position.
-/

namespace Lockstep

/-- One step from a node into one of its parts. -/
inductive Segment where
  | key (name : String)
  | index (position : Nat)
  deriving DecidableEq

/-- The trail of a node: the segments that lead to it, the last one first. -/
abbrev Trail := List Segment

/-- Whether a segment can be written. A position is an integer, which may be too long. -/
def Segment.isWritable : Segment → Bool
  | .key _ => true
  | .index position => Lockstep.isWritable position

/-- How a segment is written, as far as it can be. -/
def Segment.text : Segment → String
  | .key name => "[\"" ++ name ++ "\"]"
  | .index position => "[" ++ toString position ++ "]"

/-- The label of a node in messages: the root's label followed by the segments in order. -/
def Trail.label (root : String) : Trail → String
  | [] => root
  | segment :: trail => Trail.label root trail ++ segment.text

namespace Value

/-- The value under a key of an object; nothing matches in other nodes. -/
def lookupKey (node : Value) (name : String) : Option Value :=
  match node.entries? with
  | some entries => findEntry? entries (.text name)
  | none => none

/-- The item at a position of an array. Negative positions never match. -/
def lookupIndex (node : Value) (position : Int) : Option Value :=
  match node.items?, position with
  | some items, .ofNat n => items[n]?
  | _, _ => none

/-- The part of a node that a segment leads to. -/
def lookup (node : Value) : Segment → Option Value
  | .key name => node.lookupKey name
  | .index position => node.lookupIndex position

/-- The part that a descent finds. The label of the part is written whether there is one or not, and a position can
only be too long for that where no array has an item. -/
def find (node : Value) (segment : Segment) : Except Fault (Option Value) :=
  match node.lookup segment with
  | some part => .ok (some part)
  | none => if segment.isWritable then .ok none else .error .digitLimit

section Find
variable {node part : Value} {segment : Segment} {fault : Fault}

theorem find_eq_some_iff : node.find segment = .ok (some part) ↔ node.lookup segment = some part := by
  rw [find]
  cases node.lookup segment with
  | some part => simp
  | none => by_cases h : segment.isWritable <;> simp [h]

theorem find_eq_none_iff : node.find segment = .ok none ↔ node.lookup segment = none ∧ segment.isWritable := by
  rw [find]
  cases node.lookup segment with
  | some part => simp
  | none => by_cases h : segment.isWritable <;> simp [h]

theorem find_eq_error_iff : node.find segment = .error fault ↔
    node.lookup segment = none ∧ ¬ segment.isWritable ∧ fault = .digitLimit := by
  rw [find]
  cases node.lookup segment with
  | some part => simp
  | none => by_cases h : segment.isWritable <;> simp [h, eq_comm]

end Find

/-- The node that a trail leads to. -/
def follow (root : Value) : Trail → Option Value
  | [] => some root
  | segment :: trail => (follow root trail).bind fun node => node.lookup segment

theorem follow_append (root : Value) (further trail : Trail) :
    follow root (further ++ trail) = (follow root trail).bind fun node => follow node further := by
  induction further with
  | nil => rw [List.nil_append]; cases follow root trail <;> rfl
  | cons segment further ih => rw [List.cons_append, follow, ih, Option.bind_assoc]; rfl

end Value

end Lockstep
