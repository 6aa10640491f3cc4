import Lockstep.Value.Lookup
import Lockstep.Fault

/-!
What a run finds: failures in program order, and the fault that cut the run short, if any.
-/

namespace Lockstep

/-- Choices about the labels in failure messages; they do not change what is checked. -/
structure RunOptions where
  rootLabel : String := "subject"
  /-- Name the missing position when an array lookup fails; otherwise only the array is named. -/
  indexInFailures : Bool := false

inductive Failure where
  /-- The node with this path has no part under the segment. -/
  | missing (path : String) (segment : Segment)
  /-- The node with this path was rejected with a message. -/
  | rejected (path message : String)
  deriving DecidableEq

namespace Failure

/-- The label of a failure: where the missing part would be, or where the rejected node is. -/
def label (options : RunOptions) : Failure → String
  | .missing path (.key name) => path ++ (Segment.key name).text
  | .missing path (.index position) =>
    if options.indexInFailures then path ++ (Segment.index position).text else path
  | .rejected path _ => path

def reason : Failure → String
  | .missing .. => " failed to match any targets"
  | .rejected _ message => " failed assertion\n" ++ message

def text (options : RunOptions) (f : Failure) : String := f.label options ++ f.reason

end Failure

/-- What is found on the way, in order, and the fault that ended it, if there was one. -/
structure Findings (α : Type) where
  found : List α
  fault? : Option Fault

/-- The failures of a run in order, and what it raised after them, if it did. -/
abbrev Report := Findings Failure

namespace Findings
variable {α : Type}

def empty : Findings α := ⟨[], none⟩

def single (a : α) : Findings α := ⟨[a], none⟩

def raised (fault : Fault) : Findings α := ⟨[], some fault⟩

/-- One after another; nothing comes after a fault. -/
def append (a b : Findings α) : Findings α :=
  match a.fault? with
  | some fault => ⟨a.found, some fault⟩
  | none => ⟨a.found ++ b.found, b.fault?⟩

instance : Append (Findings α) := ⟨append⟩

@[simp] theorem empty_append (r : Findings α) : empty ++ r = r := rfl

@[simp] theorem append_empty (r : Findings α) : r ++ empty = r := by
  obtain ⟨found, _ | fault⟩ := r
  · exact congrArg (Findings.mk · none) (List.append_nil found)
  · rfl

theorem append_assoc (a b c : Findings α) : a ++ b ++ c = a ++ (b ++ c) := by
  obtain ⟨fs, _ | fault⟩ := a
  · obtain ⟨gs, _ | fault⟩ := b
    · exact congrArg (Findings.mk · c.fault?) (List.append_assoc fs gs c.found)
    · rfl
  · rfl

/-- Nothing comes after a fault. -/
@[simp] theorem raised_append (fault : Fault) (r : Findings α) : raised fault ++ r = raised fault := rfl

/-- Several one after another. -/
def concat (rs : List (Findings α)) : Findings α := rs.foldr (· ++ ·) empty

@[simp] theorem concat_nil : concat ([] : List (Findings α)) = empty := rfl

@[simp] theorem concat_cons (r : Findings α) (rs : List (Findings α)) : concat (r :: rs) = r ++ concat rs := rfl

theorem concat_append (rs ss : List (Findings α)) : concat (rs ++ ss) = concat rs ++ concat ss := by
  induction rs with
  | nil => rfl
  | cons r rs ih => rw [List.cons_append, concat_cons, concat_cons, ih, append_assoc]

/-- What was found on a way that was not cut short. -/
def outcome (r : Findings α) : Except Fault (List α) :=
  match r.fault? with
  | some fault => .error fault
  | none => .ok r.found

end Findings

/-- What a run answers: the messages of its failures, or the fault that it raised. -/
def Report.messages (options : RunOptions) (r : Report) : Except Fault (List String) :=
  r.outcome.map fun failures => failures.map (Failure.text options)

theorem Report.messages_eq_error {options : RunOptions} {r : Report} {fault : Fault} :
    r.messages options = .error fault ↔ r.fault? = some fault := by
  obtain ⟨found, _ | cause⟩ := r <;> simp [messages, Findings.outcome, Except.map]

theorem Report.messages_eq_ok {options : RunOptions} {r : Report} {texts : List String} :
    r.messages options = .ok texts ↔ r.fault? = none ∧ texts = r.found.map (Failure.text options) := by
  obtain ⟨found, _ | cause⟩ := r <;> simp [messages, Findings.outcome, Except.map, eq_comm]

/-- All messages as one text, a line break between two of them. -/
def formatFailures (failures : List String) : String := "\n".intercalate failures

end Lockstep
