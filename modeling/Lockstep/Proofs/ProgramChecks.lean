import Lockstep.Program.Equality
import Lockstep.Proofs.RoutineReplay

/-! Programs whose checks are all of one kind. The functions that build programs add no checks of their own,
so what they build checks nothing but what the parts do. -/

namespace Lockstep

namespace Program

section Built
variable {q : Program}

/-- Where an array position is given, it is a descent into that position. -/
theorem exists_of_nth {position : Int} {project : Value → Except Fault Value} {shape : Option Shape}
    (h : nth position project shape = .ok q) :
    ∃ n, q = .descend (.index n) project shape fun host => .ok (.done host) := by
  cases position with
  | ofNat n => exact ⟨n, (Except.ok.inj h).symm⟩
  | negSucc n => cases h

/-- An assertion compares with the document that the expected value is encoded into. -/
theorem exists_of_assertEqual {expected : Value} {encoder : Encoder} (h : assertEqual expected encoder = .ok q) :
    ∃ document, encoder expected = .ok document ∧ q = require (equalTo document) := by
  rw [assertEqual] at h
  cases he : encoder expected with
  | error fault => rw [he] at h; cases h
  | ok document =>
    rw [he] at h
    exact ⟨document, rfl, (Except.ok.inj h).symm⟩

theorem eq_of_allOf {ps : List Program} (h : allOf ps = .ok q) : q = .all ps := by
  rw [allOf] at h
  split at h
  · cases h
  · exact (Except.ok.inj h).symm

/-- What holds of the parts of a chain holds of the chain if it passes from two programs to the one that runs them one
after another. -/
theorem chain_induct {motive : Program → Prop} (done : motive (.done .null))
    (andThen : ∀ p q r, motive p → motive q → p.andThen q = .ok r → motive r) {ps : List Program}
    (hps : ∀ p ∈ ps, motive p) (h : chain ps = .ok q) : motive q := by
  fun_induction chain ps generalizing q with
  | case1 => exact Except.ok.inj h ▸ done
  | case2 p => exact Except.ok.inj h ▸ hps p List.mem_cons_self
  | case3 p ps _ ih =>
    obtain ⟨hp, hps⟩ := List.forall_mem_cons.1 hps
    cases hrest : chain ps with
    | error fault => rw [hrest] at h; cases h
    | ok rest => rw [hrest] at h; exact andThen p rest q hp (ih hps hrest) h

end Built

/-- Every check that can be reached has an allowed predicate. Behind a descent those checks can be reached
that its continuation makes from some host value. -/
inductive Checking (allowed : (Value → Except Fault (Option String)) → Prop) : Program → Prop where
  | done (result : Value) : Checking allowed (.done result)
  | descend {segment : Segment} {project : Value → Except Fault Value} {shape : Option Shape}
      {next : Value → Except Fault Program} (h : ∀ host p, next host = .ok p → Checking allowed p) :
      Checking allowed (.descend segment project shape next)
  | check {predicate : Value → Except Fault (Option String)} {next : Program} (ha : allowed predicate)
      (h : Checking allowed next) : Checking allowed (.check predicate next)
  | terminate : Checking allowed .terminate
  | all {members : List Program} (h : ∀ p ∈ members, Checking allowed p) : Checking allowed (.all members)
  | blank : Checking allowed .blank
  | stray (instruction : Value) : Checking allowed (.stray instruction)
  | foreign (v : Value) : Checking allowed (.foreign v)

/-- The predicate that compares nodes with one value. -/
def IsComparison (predicate : Value → Except Fault (Option String)) : Prop := ∃ e, predicate = equalTo e

namespace Checking
variable {allowed : (Value → Except Fault (Option String)) → Prop} {p q : Program}
  {k : Value → Except Fault Program}

theorem key (name : String) (project : Value → Except Fault Value) (shape : Option Shape) :
    (Program.key name project shape).Checking allowed :=
  .descend fun host _ h => Except.ok.inj h ▸ .done host

theorem nth {position : Int} {project : Value → Except Fault Value} {shape : Option Shape}
    (h : Program.nth position project shape = .ok p) : p.Checking allowed := by
  obtain ⟨n, rfl⟩ := exists_of_nth h
  exact .descend fun host _ h => Except.ok.inj h ▸ .done host

theorem assertEqual {expected : Value} {encoder : Encoder} (h : Program.assertEqual expected encoder = .ok p) :
    p.Checking IsComparison := by
  obtain ⟨document, -, rfl⟩ := exists_of_assertEqual h
  exact .check ⟨document, rfl⟩ (.done .null)

/-- Continuing adds the checks of what the continuation makes, and no others. -/
theorem bind (hp : p.Checking allowed) (hk : ∀ result q, k result = .ok q → q.Checking allowed)
    (h : Program.bind k p = .ok q) : q.Checking allowed := by
  induction hp generalizing q with
  | done result => exact hk result q h
  | @descend _ _ _ next _ ih =>
    cases h
    refine .descend fun host r hr => ?_
    cases hn : next host with
    | error fault => rw [hn] at hr; cases hr
    | ok p => rw [hn] at hr; exact ih host p hn hr
  | check ha _ ih =>
    obtain ⟨rest, hrest, rfl⟩ := bind_check_eq_ok.1 h
    exact .check ha (ih hrest)
  | terminate => cases h; exact .terminate
  | all _ ih =>
    obtain ⟨qs, hqs, rfl⟩ := bind_all_eq_ok.1 h
    refine .all fun r hr => ?_
    obtain ⟨p, hp, hpr⟩ := exists_of_mem_bindAll hqs r hr
    exact ih p hp hpr
  | _ => cases h

theorem andThen (hp : p.Checking allowed) (hq : q.Checking allowed) {r : Program}
    (h : p.andThen q = .ok r) : r.Checking allowed :=
  hp.bind (fun _ _ hk => Except.ok.inj hk ▸ hq) h

theorem map {f : Value → Except Fault Value} (hp : p.Checking allowed) (h : p.map f = .ok q) :
    q.Checking allowed := by
  refine hp.bind (fun result r hr => ?_) h
  cases hf : f result with
  | error fault => rw [hf] at hr; cases hr
  | ok v => rw [hf] at hr; exact Except.ok.inj hr ▸ .done v

theorem finalize (hp : p.Checking allowed) (h : p.finalize = .ok q) : q.Checking allowed :=
  hp.bind (fun _ _ hk => Except.ok.inj hk ▸ .terminate) h

theorem allOf {ps : List Program} (hps : ∀ p ∈ ps, p.Checking allowed) (h : Program.allOf ps = .ok q) :
    q.Checking allowed :=
  eq_of_allOf h ▸ .all hps

theorem chain {ps : List Program} (hps : ∀ p ∈ ps, p.Checking allowed) (h : Program.chain ps = .ok q) :
    q.Checking allowed :=
  chain_induct (.done .null) (fun _ _ _ hp hq h => hp.andThen hq h) hps h

end Checking

end Program

/-- Every program that a routine asks for checks what is allowed only. -/
inductive Routine.Checking (allowed : (Value → Except Fault (Option String)) → Prop) : Routine → Prop where
  | ask {p : Program} {resume : Value → Routine} (hp : p.Checking allowed)
      (h : ∀ result, Routine.Checking allowed (resume result)) : Routine.Checking allowed (.ask p resume)
  | finish (result : Value) : Routine.Checking allowed (.finish result)
  | fail (fault : Fault) : Routine.Checking allowed (.fail fault)

theorem Routine.Checking.program {allowed : (Value → Except Fault (Option String)) → Prop} {r : Routine}
    {p : Program} (hr : r.Checking allowed) (h : r.program = .ok p) : p.Checking allowed := by
  rw [program_direct] at h
  induction hr generalizing p with
  | @ask q resume hq _ ih =>
    have hbind : q.bind (fun result => (resume result).direct) = .ok p := by
      cases q with
      | foreign v => cases h
      | _ => exact h
    exact hq.bind (fun result _ hk => ih result hk) hbind
  | finish result => exact Except.ok.inj h ▸ .done result
  | fail fault => cases h

end Lockstep
