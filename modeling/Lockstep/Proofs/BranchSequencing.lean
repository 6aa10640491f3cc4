import Lockstep.Proofs.PendingFrames
import Lockstep.Proofs.WellFormedPrograms

/-! Sequencing is substitution at the branches that are completed. Continuing a program rewrites a tree that
knows no document; a run of the new tree is nevertheless the run of the old one, with the continued
program run from the state in which each branch ended. -/

namespace Lockstep

namespace Findings
variable {α β : Type}

/-- Replaces everything found by what is found from it, and keeps the fault at the end. -/
def flatMap (f : α → Findings β) (r : Findings α) : Findings β :=
  r.found.foldr (fun a rest => f a ++ rest) ⟨[], r.fault?⟩

@[simp] theorem flatMap_empty (f : α → Findings β) : empty.flatMap f = empty := rfl

@[simp] theorem flatMap_single (f : α → Findings β) (a : α) : (single a).flatMap f = f a := append_empty (f a)

@[simp] theorem flatMap_raised (f : α → Findings β) (fault : Fault) : (raised fault).flatMap f = raised fault :=
  rfl

private theorem foldr_append (f : α → Findings β) (xs : List α) (a b : Findings β) :
    xs.foldr (fun x rest => f x ++ rest) a ++ b = xs.foldr (fun x rest => f x ++ rest) (a ++ b) := by
  induction xs with
  | nil => rfl
  | cons x xs ih => rw [List.foldr_cons, List.foldr_cons, append_assoc, ih]

theorem flatMap_append (f : α → Findings β) (a b : Findings α) :
    (a ++ b).flatMap f = a.flatMap f ++ b.flatMap f := by
  obtain ⟨xs, _ | fault⟩ := a
  · exact List.foldr_append.trans (foldr_append f xs empty (b.flatMap f)).symm
  · exact (foldr_append f xs (raised fault) (b.flatMap f)).symm

private theorem flatMap_concat (f : α → Findings β) (rs : List (Findings α)) :
    (concat rs).flatMap f = concat (rs.map (flatMap f)) := by
  induction rs with
  | nil => rfl
  | cons r rs ih => rw [concat_cons, flatMap_append, ih, List.map_cons, concat_cons]

theorem flatMap_flatMap {γ : Type} (f : α → Findings β) (g : β → Findings γ) (r : Findings α) :
    (r.flatMap f).flatMap g = r.flatMap fun a => (f a).flatMap g := by
  obtain ⟨xs, fault?⟩ := r
  induction xs with
  | nil => rfl
  | cons x xs ih => exact (flatMap_append g (f x) _).trans (congrArg ((f x).flatMap g ++ ·) ih)

/-- Where nothing raises, what is found from everything found is one list after another. -/
theorem flatMap_of_no_fault {f : α → Findings β} {xs : List α} (h : ∀ x ∈ xs, (f x).fault? = none) :
    (⟨xs, none⟩ : Findings α).flatMap f = ⟨xs.flatMap fun x => (f x).found, none⟩ := by
  induction xs with
  | nil => rfl
  | cons x xs ih =>
    obtain ⟨hx, hxs⟩ := List.forall_mem_cons.1 h
    have hfx : f x = ⟨(f x).found, none⟩ := congrArg (Findings.mk _) hx
    calc (⟨x :: xs, none⟩ : Findings α).flatMap f = f x ++ (⟨xs, none⟩ : Findings α).flatMap f := rfl
      _ = ⟨(f x).found, none⟩ ++ ⟨xs.flatMap fun x => (f x).found, none⟩ := by rw [ih hxs, ← hfx]
      _ = ⟨(x :: xs).flatMap fun x => (f x).found, none⟩ := by rw [List.flatMap_cons]; rfl

end Findings

/-- How a branch of a run ended: with a failure, at a termination, or at a result, which then comes with the
state that the run had reached. -/
inductive Branch where
  | failed (failure : Failure)
  | terminated
  | completed (result node host : Value) (path : String)

namespace Branch

/-- What a branch adds to the report of its own run. -/
def report : Branch → Report
  | .failed failure => .single failure
  | .terminated => .empty
  | .completed .. => .empty

/-- What is reported when completed branches go on with a continuation: the run of the program that it makes
of the branch's result, from the branch's node, host value and path. -/
def continued (options : RunOptions) (k : Value → Except Fault Program) : Branch → Report
  | .failed failure => .single failure
  | .terminated => .empty
  | .completed result node host path => match k result with
    | .ok q => interpret { options with rootLabel := path } q node host
    | .error fault => .raised fault

end Branch

namespace Program

mutual

/-- The branches of a run in order. -/
def branches (node host : Value) (path : String) : Program → Findings Branch
  | .done result => .single (.completed result node host path)
  | .descend segment project shape next => match node.find segment with
    | .error fault => .raised fault
    | .ok none => .single (.failed (.missing path segment))
    | .ok (some part) => match projected (path ++ segment.text) project shape host with
      | .error fault => .raised fault
      | .ok v => branchesNext part v (path ++ segment.text) (next v)
  | .check predicate next => match predicate node with
    | .error fault => .raised fault
    | .ok (some message) => .single (.failed (.rejected path message))
    | .ok none => branches node host path next
  | .terminate => .single .terminated
  | .all members => branchesAll node host path members
  | .blank => .raised (.unsupportedNode "Program")
  | .stray instruction => .raised (.unsupportedInstruction instruction.typeName)
  | .foreign v => .raised (.unsupportedNode v.typeName)

def branchesNext (node host : Value) (path : String) : Except Fault Program → Findings Branch
  | .ok p => branches node host path p
  | .error fault => .raised fault

def branchesAll (node host : Value) (path : String) : List Program → Findings Branch
  | [] => .empty
  | p :: ps => branches node host path p ++ branchesAll node host path ps

end

theorem branchesAll_eq_concat (node host : Value) (path : String) (ps : List Program) :
    branchesAll node host path ps = .concat (ps.map (branches node host path)) := by
  induction ps with
  | nil => rfl
  | cons p ps ih => rw [branchesAll, ih, List.map_cons, Findings.concat_cons]

/-- The report of a run is what its branches add to it. -/
theorem walk_eq_branches (p : Program) (node host : Value) (path : String) :
    walk node host path p = (branches node host path p).flatMap Branch.report := by
  induction p generalizing node host path with
  | descend segment project shape next ih =>
    rw [walk, branches]
    rcases node.find segment with fault | _ | part
    · rfl
    · rfl
    · cases projected (path ++ segment.text) project shape host with
      | error fault => rfl
      | ok v => cases hn : next v with
        | error fault => simp only [hn, walkNext, branchesNext, Findings.flatMap_raised]
        | ok p => simp only [hn, walkNext, branchesNext, ih v p hn]
  | check predicate next ih =>
    rw [walk, branches]
    cases predicate node with
    | error fault => rfl
    | ok verdict => cases verdict with
      | some message => rfl
      | none => exact ih node host path
  | all members ih =>
    rw [walk, branches, walkAll_eq_concat, branchesAll_eq_concat, Findings.flatMap_concat, List.map_map]
    exact congrArg Findings.concat (List.map_congr_left fun p hp => ih p hp node host path)
  | _ => rfl

end Program

/-- The branches that a branch becomes when completed branches go on with a continuation. -/
def Branch.extended (k : Value → Except Fault Program) : Branch → Findings Branch
  | .failed failure => .single (.failed failure)
  | .terminated => .single .terminated
  | .completed result node host path => Program.branchesNext node host path (k result)

/-- What is reported of an extended branch is what is reported when the branch goes on. -/
theorem Branch.report_extended (options : RunOptions) (k : Value → Except Fault Program) (b : Branch) :
    (b.extended k).flatMap Branch.report = b.continued options k := by
  cases b with
  | completed result node host path =>
    rw [extended, continued]
    cases k result with
    | error fault => rfl
    | ok q =>
      have hrun := interpret_eq_walk { options with rootLabel := path } q node host
      exact (hrun.trans (Program.walk_eq_branches q node host path)).symm
  | _ => rfl

namespace Program
variable {k : Value → Except Fault Program}

theorem branchesAll_bind {ps qs : List Program} {node host : Value} {path : String} (h : bindAll k ps = .ok qs)
    (ih : ∀ p ∈ ps, ∀ {q : Program}, bind k p = .ok q →
      branches node host path q = (branches node host path p).flatMap (Branch.extended k)) :
    branchesAll node host path qs = (branchesAll node host path ps).flatMap (Branch.extended k) := by
  induction ps generalizing qs with
  | nil => cases h; rfl
  | cons p ps ihs =>
    obtain ⟨q, rest, hq, hrest, rfl⟩ := bindAll_cons_eq_ok.1 h
    obtain ⟨hp, hps⟩ := List.forall_mem_cons.1 ih
    rw [branchesAll, branchesAll, Findings.flatMap_append, hp hq, ihs hrest hps]

/-- The branches of a continued program are those of the program, and every completed one goes on with what the
continuation makes of its result. -/
theorem WellFormed.branches_bind {p q : Program} (hp : p.WellFormed) (hk : ∀ result, ∃ q, k result = .ok q)
    (h : bind k p = .ok q) (node host : Value) (path : String) :
    branches node host path q = (branches node host path p).flatMap (Branch.extended k) := by
  induction hp generalizing q node host path with
  | done result =>
    rw [bind] at h
    rw [branches, Findings.flatMap_single, Branch.extended, h, branchesNext]
  | @descend segment project shape next hwf ih =>
    cases h
    rw [branches, branches]
    rcases node.find segment with fault | _ | part
    · rfl
    · rfl
    · cases projected (path ++ segment.text) project shape host with
      | error fault => rfl
      | ok v => cases hn : next v with
        | error fault => simp only [hn, bindNext, branchesNext, Findings.flatMap_raised]
        | ok p =>
          obtain ⟨q, hq⟩ := (hwf v p hn).bind_ok hk
          simp only [hn, bindNext, hq, branchesNext]
          exact ih v p hn hq part v _
  | @check predicate next _ ih =>
    obtain ⟨rest, hrest, rfl⟩ := bind_check_eq_ok.1 h
    rw [branches, branches]
    cases predicate node with
    | error fault => rfl
    | ok verdict => cases verdict with
      | some message => rfl
      | none => exact ih hrest node host path
  | terminate => cases h; rfl
  | all _ ih =>
    obtain ⟨qs, hqs, rfl⟩ := bind_all_eq_ok.1 h
    exact branchesAll_bind hqs fun p hp _ hq => ih p hp hq node host path

/-- A continued program runs as the program does, and every completed branch goes on with what the
continuation makes of its result. -/
theorem WellFormed.walk_bind {p q : Program} (options : RunOptions) (hp : p.WellFormed)
    (hk : ∀ result, ∃ q, k result = .ok q) (h : bind k p = .ok q) (node host : Value) (path : String) :
    walk node host path q = (branches node host path p).flatMap (Branch.continued options k) := by
  rw [walk_eq_branches, hp.branches_bind hk h, Findings.flatMap_flatMap]
  simp only [Branch.report_extended options]

end Program

/-- The failures of a run are those of its branches. Continued with `k`, a branch fails where it failed before, and
where it is completed the program made from its own result goes on at its own node, host value and path. -/
theorem interpret_bind {p : Program} {k : Value → Except Fault Program} (hp : p.WellFormed)
    (hk : Program.Proper k) :
    ∃ q, p.bind k = .ok q ∧ ∀ (options : RunOptions) (document host : Value),
      let branches := p.branches document host options.rootLabel
      interpret options p document host = branches.flatMap Branch.report ∧
      interpret options q document host = branches.flatMap (Branch.continued options k) ∧
      (branches.fault? = none → (∀ b ∈ branches.found, (b.continued options k).fault? = none) →
        interpret options q document host =
          ⟨branches.found.flatMap fun b => (b.continued options k).found, none⟩) := by
  obtain ⟨q, hq⟩ := hp.bind_ok hk.total
  refine ⟨q, hq, fun options document host => ?_⟩
  have hwalk := hp.walk_bind options hk.total hq document host options.rootLabel
  have hrun := (interpret_eq_walk options q document host).trans hwalk
  refine ⟨?_, hrun, fun hb hfree => ?_⟩
  · rw [interpret_eq_walk, Program.walk_eq_branches]
  · have hbranches : p.branches document host options.rootLabel =
        ⟨(p.branches document host options.rootLabel).found, none⟩ := congrArg (Findings.mk _) hb
    rw [hrun, hbranches, Findings.flatMap_of_no_fault hfree]

theorem interpret_bind_fanOut :
    ∃ q, Program.fanOut.bind (fun r => .ok (.all [.key "age", .done r])) = .ok q ∧
      interpret {} q .null .null =
        ⟨[.missing "subject" (.key "name"), .missing "subject" (.key "age")], none⟩ := by
  have hk : Program.Proper fun r => .ok (.all [.key "age", .done r]) := fun r =>
    ⟨_, rfl, .all (by simpa using ⟨.key "age" .ok none, .done r⟩)⟩
  obtain ⟨q, hq, h⟩ := interpret_bind Program.fanOut_wellFormed hk
  obtain ⟨-, -, hfree⟩ := h {} .null .null
  have hbranches : (Program.fanOut.branches .null .null "subject").found =
      [.failed (.missing "subject" (.key "name")), .completed (.int 1) .null .null "subject", .terminated] := rfl
  refine ⟨q, hq, (hfree rfl ?_).trans ?_⟩
  · simp only [hbranches, Branch.continued, interpret_eq_walk, List.forall_mem_cons]
    exact ⟨rfl, rfl, rfl, List.forall_mem_nil _⟩
  · simp only [hbranches, Branch.continued, interpret_eq_walk, List.flatMap_cons, List.flatMap_nil]
    rfl

end Lockstep
