import Lockstep.Fault
import Lockstep.Value.Lookup

/-!
Programs: tests that walk a document and the host value it was encoded from at the same time. A program is
a tree. It ends with a result, holds one pending instruction with what follows it, or runs several programs
from the same starting point.
-/

namespace Lockstep

/-- A declared type of host values. Testing whether a value is an instance raises for some types. -/
structure Shape where
  name : String
  test : Value → Except Fault Bool

/-- The class with this name. -/
def Shape.ofClass (name : String) : Shape := ⟨name, fun v => .ok (v.isInstance name)⟩

/-- A type for which no value can be tested. -/
def Shape.ofUntestable (name : String) : Shape := ⟨name, fun _ => .error .untestable⟩

inductive Program where
  /-- No more steps. -/
  | done (result : Value)
  /-- Descend into a part of the node. The host value of that part is projected from the present one, and
  the rest of the program is made from it. -/
  | descend (segment : Segment) (project : Value → Except Fault Value) (shape : Option Shape)
      (next : Value → Except Fault Program)
  /-- Check the node; a message rejects it. -/
  | check (predicate : Value → Except Fault (Option String)) (next : Program)
  /-- End the branch. -/
  | terminate
  /-- Independent programs that start from the same node and host value. -/
  | all (members : List Program)
  /-- The base of all programs, which does nothing of its own. -/
  | blank
  /-- A step whose instruction is no instruction. -/
  | stray (instruction : Value)
  /-- A value that stands where a program is expected. -/
  | foreign (v : Value)

namespace Program

instance : Inhabited Program := ⟨.terminate⟩

/-- Induction over what can follow: programs that continuations return, and members. -/
@[elab_as_elim, induction_eliminator]
theorem induct {motive : Program → Prop} (done : ∀ result, motive (.done result))
    (descend : ∀ segment project shape next,
      (∀ host p, next host = .ok p → motive p) → motive (.descend segment project shape next))
    (check : ∀ predicate next, motive next → motive (.check predicate next)) (terminate : motive .terminate)
    (all : ∀ members, (∀ p ∈ members, motive p) → motive (.all members)) (blank : motive .blank)
    (stray : ∀ instruction, motive (.stray instruction)) (foreign : ∀ v, motive (.foreign v))
    (p : Program) : motive p :=
  @Program.rec motive (fun o => ∀ q, o = .ok q → motive q) (fun members => ∀ q ∈ members, motive q)
    done descend check terminate all blank stray foreign
    (fun _ _ h => nomatch h) (fun _ hp _ h => Except.ok.inj h ▸ hp)
    (fun _ h => nomatch h) (fun _ _ hp hps => List.forall_mem_cons.2 ⟨hp, hps⟩) p

mutual

/-- Continues with the program made from the result. The continuation is applied at once where a result
is known, and after the projection where a descent comes first. -/
def bind (k : Value → Except Fault Program) : Program → Except Fault Program
  | .done result => k result
  | .descend segment project shape next =>
    .ok (.descend segment project shape fun host => bindNext k (next host))
  | .check predicate next => (bind k next).map (.check predicate)
  | .terminate => .ok .terminate
  | .all members => (bindAll k members).map .all
  | .blank => .error .abstractProgram
  | .stray _ => .error .notContinuable
  | .foreign _ => .error .notContinuable

def bindNext (k : Value → Except Fault Program) : Except Fault Program → Except Fault Program
  | .ok p => bind k p
  | .error fault => .error fault

/-- Continues every member in order. -/
def bindAll (k : Value → Except Fault Program) : List Program → Except Fault (List Program)
  | [] => .ok []
  | p :: ps => do
    let first ← bind k p
    let rest ← bindAll k ps
    pure (first :: rest)

end

section Bind
variable {k : Value → Except Fault Program}

theorem bind_check_eq_ok {predicate : Value → Except Fault (Option String)} {next q : Program} :
    bind k (.check predicate next) = .ok q ↔ ∃ rest, bind k next = .ok rest ∧ q = .check predicate rest := by
  rw [bind]
  cases bind k next <;> simp [Except.map, eq_comm]

theorem bind_all_eq_ok {ps : List Program} {q : Program} :
    bind k (.all ps) = .ok q ↔ ∃ qs, bindAll k ps = .ok qs ∧ q = .all qs := by
  rw [bind]
  cases bindAll k ps <;> simp [Except.map, eq_comm]

theorem bindAll_cons_eq_ok {p : Program} {ps qs : List Program} :
    bindAll k (p :: ps) = .ok qs ↔ ∃ q rest, bind k p = .ok q ∧ bindAll k ps = .ok rest ∧ qs = q :: rest := by
  rw [bindAll]
  cases bind k p <;> cases bindAll k ps <;>
    simp [Bind.bind, Except.bind, Pure.pure, Except.pure, eq_comm]

end Bind

/-- Continues with another program, whatever the result. -/
def andThen (p q : Program) : Except Fault Program := p.bind fun _ => .ok q

/-- Changes the final result. -/
def map (f : Value → Except Fault Value) (p : Program) : Except Fault Program :=
  p.bind fun result => (f result).map .done

/-- Ends the branch after the program. -/
def finalize (p : Program) : Except Fault Program := p.bind fun _ => .ok .terminate

/-- Ends with the projected host value of an object's part. -/
def key (name : String) (project : Value → Except Fault Value := .ok) (shape : Option Shape := none) :
    Program :=
  .descend (.key name) project shape fun host => .ok (.done host)

/-- Ends with the projected host value of an array's item. -/
def nth (position : Int) (project : Value → Except Fault Value := .ok) (shape : Option Shape := none) :
    Except Fault Program :=
  match position with
  | .ofNat n => .ok (.descend (.index n) project shape fun host => .ok (.done host))
  | position => .error (if isWritable position then .negativePosition position else .digitLimit)

/-- Checks the node, and ends without a result of its own. -/
def require (predicate : Value → Except Fault (Option String)) : Program := .check predicate (.done .null)

/-- The type of what stands in a program's place, if that is no program. -/
def intruder? : Program → Option String
  | .foreign v => some v.typeName
  | _ => none

/-- Combines programs that each start from the present node and host value. -/
def allOf (ps : List Program) : Except Fault Program :=
  match ps.findSome? intruder? with
  | some type => .error (.notAProgram .combination type)
  | none => .ok (.all ps)

/-- Runs programs one after another, joined from the right. -/
def chain : List Program → Except Fault Program
  | [] => .ok (.done .null)
  | [p] => .ok p
  | p :: ps => do
    let rest ← chain ps
    p.andThen rest

end Program

end Lockstep
