import Lockstep.Proofs.BranchSequencing
import Lockstep.Script.Basic

/-! Replaying a routine from the start is resuming it where it waits. A replay is sent every result that the
routine has asked for so far, and no replay is ever sent a result that the routine does not wait for. -/

namespace Lockstep

namespace Routine

/-- Every replay builds what the routine still is once the results have been sent. -/
theorem replay_eq_direct (start : Routine) (sent : List Value) :
    start.replay sent = (start.resumed sent).direct := by
  generalize h : start.resumed sent = r
  induction r generalizing sent with
  | ask p resume ih =>
    have hk (result : Value) : start.replay (sent ++ [result]) = (resume result).direct :=
      ih result (sent ++ [result]) (resumed_append h result)
    rw [replay_eq, h, direct, funext hk]
  | finish result => rw [replay_eq, h, direct]
  | fail fault => rw [replay_eq, h, direct]

private theorem resumed_nil (r : Routine) : r.resumed [] = r := by cases r <;> rfl

theorem program_direct (r : Routine) : r.program = r.direct := by
  rw [program, replay_eq_direct, resumed_nil]

/-- The results that are left when a routine ends before it was sent them all. -/
def unsent : Routine → List Value → List Value
  | .ask _ resume, v :: sent => unsent (resume v) sent
  | _, sent => sent

/-- The lists that replays of a routine are called with: the empty one at first, and then, whenever a replay
has come to a program, that list with a result of the program behind it. -/
inductive Replayed (start : Routine) : List Value → Prop where
  | start : Replayed start []
  | further {sent : List Value} {p : Program} {resume : Value → Routine} (h : Replayed start sent)
      (hp : start.resumed sent = .ask p resume) (result : Value) : Replayed start (sent ++ [result])

private theorem unsent_nil (r : Routine) : r.unsent [] = [] := by cases r <;> rfl

private theorem unsent_append {r : Routine} {sent : List Value} {p : Program} {resume : Value → Routine}
    (h : r.resumed sent = .ask p resume) (v : Value) : r.unsent (sent ++ [v]) = [] := by
  induction sent generalizing r with
  | nil => cases r with
    | ask q next => exact unsent_nil (next v)
    | finish => cases h
    | fail => cases h
  | cons u sent ih => cases r with
    | ask q next => exact ih h
    | finish => cases h
    | fail => cases h

/-- No replay is sent more than the routine waits for. -/
theorem Replayed.unsent_eq_nil {start : Routine} {sent : List Value} (h : Replayed start sent) :
    start.unsent sent = [] := by
  cases h with
  | start => exact unsent_nil start
  | further _ hp result => exact unsent_append hp result

/-- A program that is asked for is continued with the programs of what the routine becomes. -/
theorem program_ask {p : Program} (resume : Value → Routine) (hp : ∀ v, p ≠ .foreign v) :
    (ask p resume).program = p.bind fun v => (resume v).program := by
  rw [program_direct, direct, funext fun v => program_direct (resume v)]
  cases p with
  | foreign v => exact absurd rfl (hp v)
  | _ => rfl

/-- A routine that asks for something else than a program is refused wherever it does. -/
theorem replay_of_foreign {start : Routine} {sent : List Value} {v : Value} {resume : Value → Routine}
    (h : start.resumed sent = .ask (.foreign v) resume) :
    start.replay sent = .error (.notAProgram .generator v.typeName) := by
  rw [replay_eq, h]
  rfl

end Routine

namespace Script

mutual

/-- What statements and what follows them build when every result is bound where it is obtained. -/
def perform : List Statement → Scope → (Scope → Except Fault Program) → Except Fault Program
  | [], scope, rest => rest scope
  | s :: ss, scope, rest => performOne s scope fun scope => perform ss scope rest

def performOne : Statement → Scope → (Scope → Except Fault Program) → Except Fault Program
  | .run p name, scope, rest => do
    let p ← build scope p
    Routine.answer (fun result => rest (match name with
      | some name => scope.set name result
      | none => scope)) p
  | .branch e yes no, scope, rest => do
    let v ← e.eval scope
    if isTrue v then perform yes scope rest else perform no scope rest
  | .ret e, scope, _ => (e.eval scope).map .done

end

mutual

theorem direct_routineOf : ∀ (ss : List Statement) (scope : Scope) (rest : Scope → Routine),
    (routineOf ss scope rest).direct = perform ss scope fun scope => (rest scope).direct
  | [], _, _ => by rw [routineOf, perform]
  | s :: ss, scope, rest => by
    have h (scope : Scope) := direct_routineOf ss scope rest
    rw [routineOf, perform, direct_statementRoutine s, funext h]

theorem direct_statementRoutine : ∀ (s : Statement) (scope : Scope) (rest : Scope → Routine),
    (statementRoutine s scope rest).direct = performOne s scope fun scope => (rest scope).direct
  | .run p name, scope, rest => by
    rw [statementRoutine, performOne]
    cases build scope p <;> rfl
  | .branch e yes no, scope, rest => by
    rw [statementRoutine, performOne]
    cases e.eval scope with
    | error fault => rfl
    | ok v =>
      by_cases h : isTrue v
      · simpa [h, Bind.bind, Except.bind] using direct_routineOf yes scope rest
      · simpa [h, Bind.bind, Except.bind] using direct_routineOf no scope rest
  | .ret e, scope, _ => by
    rw [statementRoutine, performOne]
    cases e.eval scope <;> rfl

end

/-- A block of statements builds what its statements perform. -/
theorem build_routine (scope : Scope) (ss : List Statement) :
    build scope (.routine ss) = perform ss scope fun _ => .ok (.done .null) := by
  rw [build, Routine.program_direct, direct_routineOf]
  rfl

end Script

namespace Routine

/-- The program of a routine is the one built by resuming the routine where it waits, and no replay on the way is sent
more than the routine waits for. A program that is asked for goes on, branch by branch, with what the routine becomes
on the branch's own result, and anything else is refused by its type. -/
theorem program_eq_direct (r : Routine) :
    r.program = r.direct ∧
    (∀ sent, r.Replayed sent → r.unsent sent = [] ∧ r.replay sent = (r.resumed sent).direct) ∧
    (∀ (sent : List Value) (v : Value) (resume : Value → Routine), r.resumed sent = .ask (.foreign v) resume →
      r.replay sent = .error (.notAProgram .generator v.typeName)) ∧
    (∀ (p : Program) (resume : Value → Routine), r = .ask p resume → (∀ v, p ≠ .foreign v) →
      r.program = p.bind fun v => (resume v).program) ∧
    (∀ (p : Program) (resume : Value → Routine), r = .ask p resume → p.WellFormed →
      (∀ v, ∃ q, (resume v).program = .ok q) →
      ∃ q, r.program = .ok q ∧ ∀ (options : RunOptions) (document host : Value),
        interpret options q document host = (p.branches document host options.rootLabel).flatMap
          (Branch.continued options fun v => (resume v).program)) ∧
    (∀ (scope : Script.Scope) (ss : List Script.Statement),
      Script.build scope (.routine ss) = Script.perform ss scope fun _ => .ok (.done .null)) := by
  refine ⟨program_direct r, fun sent h => ⟨h.unsent_eq_nil, replay_eq_direct r sent⟩,
    fun sent v resume => replay_of_foreign, ?_, ?_, Script.build_routine⟩
  · rintro p resume rfl hp
    exact program_ask resume hp
  · rintro p resume rfl hp hresume
    obtain ⟨q, hq⟩ := hp.bind_ok hresume
    have hprogram : ∀ v, p ≠ .foreign v := by
      rintro v rfl
      cases hp
    refine ⟨q, (program_ask resume hprogram).trans hq, fun options document host => ?_⟩
    rw [interpret_eq_walk, hp.walk_bind options hresume hq]

theorem program_eq_direct_fanOut :
    let resume : Value → Routine := fun v => .ask (.require (equalTo v)) fun _ => .finish v
    (ask .fanOut resume).unsent [.int 1] = [] ∧
    ∃ q, (ask .fanOut resume).program = .ok q ∧ ∀ (options : RunOptions) (document host : Value),
      interpret options q document host = (Program.fanOut.branches document host options.rootLabel).flatMap
        (Branch.continued options fun v => (resume v).program) := by
  intro resume
  obtain ⟨-, hsent, -, -, hrun, -⟩ := program_eq_direct (ask .fanOut resume)
  have hresume (v : Value) : ∃ q, (resume v).program = .ok q := ⟨_, (resume v).program_direct⟩
  exact ⟨(hsent [.int 1] (.further .start rfl (.int 1))).1, hrun _ _ rfl Program.fanOut_wellFormed hresume⟩

end Routine

end Lockstep
