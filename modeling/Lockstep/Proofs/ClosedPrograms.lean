import Lockstep.Proofs.BindLaws
import Lockstep.Proofs.BranchSequencing

/-! Closed programs. Ending every branch of a program leaves its failures as they are and takes away its results, so
whatever is sequenced after it is never made. -/

namespace Lockstep

/-- A branch that ends where it completed. -/
def Branch.closed : Branch → Branch
  | .failed failure => .failed failure
  | .terminated => .terminated
  | .completed .. => .terminated

private theorem Branch.extended_terminate : Branch.extended (fun _ => .ok .terminate) = fun b => .single b.closed := by
  funext b
  cases b <;> rfl

/-- A closed branch is reported as before: one that completed adds nothing, and neither does one that ended. -/
theorem Branch.report_closed (b : Branch) : b.closed.report = b.report := by
  cases b <;> rfl

namespace Program
variable {p q : Program}

/-- The branches of a finalized program are those of the program, closed. -/
theorem WellFormed.branches_finalize (hp : p.WellFormed) (h : p.finalize = .ok q) (node host : Value)
    (path : String) :
    q.branches node host path = (p.branches node host path).flatMap fun b => .single b.closed := by
  rw [hp.branches_bind (fun _ => ⟨.terminate, rfl⟩) h, Branch.extended_terminate]

theorem WellFormed.walk_finalize (hp : p.WellFormed) (h : p.finalize = .ok q) (node host : Value)
    (path : String) : q.walk node host path = p.walk node host path := by
  rw [walk_eq_branches, walk_eq_branches, hp.branches_finalize h, Findings.flatMap_flatMap]
  simp only [Findings.flatMap_single, Branch.report_closed]

/-- A finalized program has no result to continue with. -/
theorem WellFormed.bind_finalize (hp : p.WellFormed) (h : p.finalize = .ok q) (k : Value → Except Fault Program) :
    q.bind k = .ok q := by
  -- The continuation meets only the terminations that are the results of the first one.
  have hterminate : (fun _ : Value => bindNext k (.ok .terminate)) = fun _ => .ok .terminate := rfl
  calc q.bind k = p.bind fun _ => bindNext k (.ok .terminate) := hp.bind_bind (fun _ => ⟨.terminate, rfl⟩) h
    _ = p.finalize := by rw [hterminate, finalize]
    _ = .ok q := h

/-- Finalizing changes nothing that a run reports and closes the program: its branches are the same but that those
which completed terminate, and continued with anything, even with what raises, it stays what it is. -/
theorem finalize_closes (hp : p.WellFormed) :
    ∃ q, p.finalize = .ok q ∧
      (∀ options document host, interpret options q document host = interpret options p document host) ∧
      (∀ node host path,
        q.branches node host path = (p.branches node host path).flatMap fun b => .single b.closed) ∧
      (∀ k, q.bind k = .ok q) ∧ q.finalize = .ok q := by
  obtain ⟨q, hq⟩ := hp.bind_ok fun _ => ⟨.terminate, rfl⟩
  refine ⟨q, hq, ?_, hp.branches_finalize hq, hp.bind_finalize hq, hp.bind_finalize hq _⟩
  intro options document host
  rw [interpret_eq_walk, interpret_eq_walk, hp.walk_finalize hq]

theorem finalize_closes_fanOut :
    ∃ q, fanOut.finalize = .ok q ∧ interpret {} q .null .null = interpret {} fanOut .null .null ∧
      q.bind (fun r => .error (.notAProgram .combination r.typeName)) = .ok q ∧ q.finalize = .ok q := by
  obtain ⟨q, hq, hrun, -, hbind, hself⟩ := finalize_closes fanOut_wellFormed
  exact ⟨q, hq, hrun {} .null .null, hbind _, hself⟩

end Program

end Lockstep
