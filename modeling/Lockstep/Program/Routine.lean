import Lockstep.Program.Basic

/-!
Routines: computations that ask for programs to be run, are resumed with each result, and at last finish.
A routine becomes a program by replaying it from the start for every continuation; `direct` resumes it
where it waits instead.
-/

namespace Lockstep

inductive Routine where
  /-- Wait for the result of a program. -/
  | ask (program : Program) (resume : Value → Routine)
  | finish (result : Value)
  | fail (fault : Fault)

namespace Routine

/-- Continues a program that a routine asks for. Anything else that it asks for is refused. -/
def answer (k : Value → Except Fault Program) : Program → Except Fault Program
  | .foreign v => .error (.notAProgram .generator v.typeName)
  | p => p.bind k

/-- The program that a routine stands for when each result resumes it where it waits. -/
def direct : Routine → Except Fault Program
  | .ask p resume => answer (fun result => (resume result).direct) p
  | .finish result => .ok (.done result)
  | .fail fault => .error fault

/-- Where a routine stands after it has been sent these results. Once it has ended the rest is ignored. -/
def resumed : Routine → List Value → Routine
  | r, [] => r
  | .ask _ resume, v :: sent => resumed (resume v) sent
  | .finish result, _ :: _ => .finish result
  | .fail fault, _ :: _ => .fail fault

/-- The first routine is what the second one becomes when it is sent a result. -/
inductive Resumes : Routine → Routine → Prop where
  | send (p : Program) (resume : Value → Routine) (v : Value) : Resumes (resume v) (.ask p resume)

theorem acc_resumes (r : Routine) : Acc Resumes r := by
  induction r with
  | ask p resume ih => exact ⟨_, fun _ h => by cases h with | send _ _ v => exact ih v⟩
  | finish => exact ⟨_, fun _ h => by cases h⟩
  | fail => exact ⟨_, fun _ h => by cases h⟩

instance : WellFoundedRelation Routine := ⟨Resumes, ⟨acc_resumes⟩⟩

theorem resumed_append {r : Routine} {sent : List Value} {p : Program} {resume : Value → Routine}
    (h : r.resumed sent = .ask p resume) (v : Value) : r.resumed (sent ++ [v]) = resume v := by
  induction sent generalizing r with
  | nil => cases r <;> simp_all [resumed]
  | cons u sent ih => cases r with
    | ask q next => exact ih h
    | finish => cases h
    | fail => cases h

/-- The program for the rest of a routine that was started anew and sent the results obtained so far. -/
def replay (start : Routine) (sent : List Value) : Except Fault Program :=
  match _h : start.resumed sent with
  | .ask p _ => answer (fun result => replay start (sent ++ [result])) p
  | .finish result => .ok (.done result)
  | .fail fault => .error fault
termination_by start.resumed sent
decreasing_by rw [resumed_append _h, _h]; exact .send ..

theorem replay_eq (start : Routine) (sent : List Value) :
    start.replay sent = match start.resumed sent with
      | .ask p _ => answer (fun result => replay start (sent ++ [result])) p
      | .finish result => .ok (.done result)
      | .fail fault => .error fault := by
  rw [replay]
  split <;> rename_i h <;> rw [h]

/-- The program of a routine. It keeps nothing but the routine, so it can be run any number of times. -/
def program (r : Routine) : Except Fault Program := r.replay []

end Routine

end Lockstep
