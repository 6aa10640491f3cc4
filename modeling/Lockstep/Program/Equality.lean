import Lockstep.Encoding
import Lockstep.Json.Equality
import Lockstep.Json.Render
import Lockstep.Program.Basic

/-!
Assertions that a node equals an encoded value.
-/

namespace Lockstep

/-- A way of encoding host values. -/
abbrev Encoder := Value → Except Fault Value

/-- What rejects a node that differs from the expected document. -/
def differenceText (expected actual : String) : String :=
  "Expected: " ++ expected ++ "\n     Got: " ++ actual

/-- Accepts the nodes that are equal to a document. -/
def equalTo (expected node : Value) : Except Fault (Option String) :=
  if node.jsonEqual expected then .ok none
  else do
    let e ← expected.render
    let g ← node.render
    pure (some (differenceText e g))

section EqualTo
variable {expected node : Value}

theorem equalTo_of_equal (h : node.jsonEqual expected) : equalTo expected node = .ok none := if_pos h

/-- Unequal nodes are told apart by their texts, and the text of what is expected is made first. -/
theorem equalTo_of_unequal (h : ¬ node.jsonEqual expected) : equalTo expected node =
    expected.render.bind fun e => node.render.map fun g => some (differenceText e g) := by
  rw [equalTo, if_neg h]
  cases expected.render with
  | error fault => rfl
  | ok e => cases node.render <;> rfl

theorem equalTo_eq_some_iff {message : String} : equalTo expected node = .ok (some message) ↔
    ¬ node.jsonEqual expected ∧
      ∃ e g, expected.render = .ok e ∧ node.render = .ok g ∧ message = differenceText e g := by
  by_cases h : node.jsonEqual expected
  · simp [equalTo_of_equal h, h]
  · rw [equalTo_of_unequal h]
    cases expected.render <;> cases node.render <;> simp [h, Except.bind, Except.map, eq_comm]

end EqualTo

/-- Checks that the node equals the encoding of a value, which is encoded once, here. -/
def Program.assertEqual (expected : Value) (encoder : Encoder := Value.encode) : Except Fault Program :=
  (encoder expected).map fun document => .require (equalTo document)

end Lockstep
