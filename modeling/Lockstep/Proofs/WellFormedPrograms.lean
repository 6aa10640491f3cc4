import Lockstep.Program.Basic

/-! Programs all of whose reachable nodes are nodes that a run supports. Continuing one raises what the
continuation raises first on the results that are known without a document, and nothing else. -/

namespace Lockstep

/-- The fault of something that raised. -/
def raised? {α : Type} : Except Fault α → Option Fault
  | .ok _ => none
  | .error fault => some fault

section Raised
variable {α β : Type} {fault : Fault}

@[simp] theorem raised?_ok (a : α) : raised? (.ok a) = none := rfl

@[simp] theorem raised?_error : raised? (.error fault : Except Fault α) = some fault := rfl

private theorem raised?_eq_some {o : Except Fault α} : raised? o = some fault ↔ o = .error fault := by
  cases o <;> simp

theorem raised?_eq_none {o : Except Fault α} : raised? o = none ↔ ∃ a, o = .ok a := by
  cases o <;> simp

@[simp] theorem raised?_map (f : α → β) (o : Except Fault α) : raised? (o.map f) = raised? o := by
  cases o <;> rfl

/-- Of two steps the first one raises, and the second one if the first does not. -/
theorem raised?_bind (o : Except Fault α) (f : α → Except Fault β) (h : Option Fault)
    (hf : ∀ a, raised? (f a) = h) : raised? (o >>= f) = (raised? o).or h := by
  cases o with
  | error fault => rfl
  | ok a => exact hf a

end Raised

namespace Program

/-- Every reachable node is a result, a combination, or a step with one of the instructions. Behind a
descent those nodes are reachable that its continuation makes from some host value. -/
inductive WellFormed : Program → Prop where
  | done (result : Value) : WellFormed (.done result)
  | descend {segment : Segment} {project : Value → Except Fault Value} {shape : Option Shape}
      {next : Value → Except Fault Program} (h : ∀ host p, next host = .ok p → WellFormed p) :
      WellFormed (.descend segment project shape next)
  | check {predicate : Value → Except Fault (Option String)} {next : Program} (h : WellFormed next) :
      WellFormed (.check predicate next)
  | terminate : WellFormed .terminate
  | all {members : List Program} (h : ∀ p ∈ members, WellFormed p) : WellFormed (.all members)

/-- A continuation that raises for no result and returns well-formed programs only. -/
def Proper (k : Value → Except Fault Program) : Prop := ∀ result, ∃ q, k result = .ok q ∧ q.WellFormed

theorem WellFormed.key (name : String) (project : Value → Except Fault Value) (shape : Option Shape) :
    (Program.key name project shape).WellFormed :=
  .descend fun host _ h => Except.ok.inj h ▸ .done host

theorem WellFormed.require (predicate : Value → Except Fault (Option String)) : (require predicate).WellFormed :=
  .check (.done .null)

/-- A descent, a result and a termination side by side. -/
def fanOut : Program := .all [.key "name", .done (.int 1), .terminate]

theorem fanOut_wellFormed : fanOut.WellFormed :=
  .all (by simpa using ⟨.key "name" .ok none, .done (.int 1), .terminate⟩)

theorem Proper.total {k : Value → Except Fault Program} (hk : Proper k) (result : Value) :
    ∃ q, k result = .ok q :=
  let ⟨q, h, _⟩ := hk result
  ⟨q, h⟩

variable {k : Value → Except Fault Program}

mutual

/-- The results that are reached through combinations and checks only, in order. They are known before any
document is. -/
def eagerResults : Program → List Value
  | .done result => [result]
  | .check _ next => eagerResults next
  | .all members => eagerResultsAll members
  | .descend .. => []
  | .terminate => []
  | .blank => []
  | .stray _ => []
  | .foreign _ => []

def eagerResultsAll : List Program → List Value
  | [] => []
  | p :: ps => eagerResults p ++ eagerResultsAll ps

end

/-- The continuation raises the fault on one of the results, and on none that stands before it. -/
def FirstRaised (k : Value → Except Fault Program) (results : List Value) (fault : Fault) : Prop :=
  ∃ before result after, results = before ++ result :: after ∧ k result = .error fault ∧
    ∀ r ∈ before, ∃ q, k r = .ok q

private theorem firstRaised_iff {results : List Value} {fault : Fault} :
    FirstRaised k results fault ↔ results.findSome? (fun r => raised? (k r)) = some fault := by
  simp only [List.findSome?_eq_some_iff, raised?_eq_some, raised?_eq_none, FirstRaised]

private theorem raised?_bindAll {ps : List Program}
    (h : ∀ p ∈ ps, raised? (bind k p) = (eagerResults p).findSome? fun r => raised? (k r)) :
    raised? (bindAll k ps) = (eagerResultsAll ps).findSome? fun r => raised? (k r) := by
  induction ps with
  | nil => rfl
  | cons p ps ih =>
    obtain ⟨hp, hps⟩ := List.forall_mem_cons.1 h
    rw [bindAll, eagerResultsAll, List.findSome?_append, ← hp, ← ih hps]
    refine raised?_bind _ _ _ fun q => ?_
    rw [raised?_bind (bindAll k ps) _ none fun _ => rfl, Option.or_none]

/-- What continuing raises is what the continuation raises first on the eager results. -/
theorem WellFormed.raised?_bind {p : Program} (hp : p.WellFormed) :
    raised? (bind k p) = (eagerResults p).findSome? fun r => raised? (k r) := by
  induction hp with
  | done result =>
    rw [bind, eagerResults, List.findSome?_singleton]
  | descend _ _ => rfl
  | check _ ih =>
    rw [bind, eagerResults, raised?_map]
    exact ih
  | terminate => rfl
  | all _ ih =>
    rw [bind, eagerResults, raised?_map]
    exact raised?_bindAll ih

theorem WellFormed.bind_eq_error {p : Program} (hp : p.WellFormed) {fault : Fault} :
    bind k p = .error fault ↔ FirstRaised k p.eagerResults fault := by
  rw [firstRaised_iff, ← hp.raised?_bind, raised?_eq_some]

theorem WellFormed.bind_eq_ok {p : Program} (hp : p.WellFormed) :
    (∃ q, bind k p = .ok q) ↔ ∀ r ∈ p.eagerResults, ∃ q, k r = .ok q := by
  rw [← raised?_eq_none, hp.raised?_bind, List.findSome?_eq_none_iff]
  simp only [raised?_eq_none]

/-- Every continued member comes from a member. -/
theorem exists_of_mem_bindAll {ps qs : List Program} (h : bindAll k ps = .ok qs) :
    ∀ q ∈ qs, ∃ p ∈ ps, bind k p = .ok q := by
  induction ps generalizing qs with
  | nil =>
    cases h
    intro q hq
    cases hq
  | cons p ps ih =>
    obtain ⟨r, rest, hr, hrest, rfl⟩ := bindAll_cons_eq_ok.1 h
    intro q hq
    rcases List.mem_cons.1 hq with rfl | hq
    · exact ⟨p, List.mem_cons_self, hr⟩
    · obtain ⟨p', hp', hq'⟩ := ih hrest q hq
      exact ⟨p', List.mem_cons_of_mem p hp', hq'⟩

/-- Continuing a well-formed program raises nothing of its own. -/
theorem WellFormed.bind_ok {p : Program} (hp : p.WellFormed) (hk : ∀ result, ∃ q, k result = .ok q) :
    ∃ q, bind k p = .ok q :=
  hp.bind_eq_ok.2 fun result _ => hk result

/-- What continues a well-formed program with well-formed programs is well-formed. -/
theorem WellFormed.of_bind {p q : Program} (hp : p.WellFormed) (hk : Proper k) (h : bind k p = .ok q) :
    q.WellFormed := by
  induction hp generalizing q with
  | done result =>
    obtain ⟨r, hr, hwf⟩ := hk result
    cases hr.symm.trans h
    exact hwf
  | @descend _ _ _ next _ ih =>
    cases h
    refine .descend fun host r hr => ?_
    cases hn : next host with
    | error fault => rw [hn] at hr; cases hr
    | ok p => rw [hn] at hr; exact ih host p hn hr
  | check _ ih =>
    obtain ⟨rest, hrest, rfl⟩ := bind_check_eq_ok.1 h
    exact .check (ih hrest)
  | terminate => cases h; exact .terminate
  | all _ ih =>
    obtain ⟨qs, hqs, rfl⟩ := bind_all_eq_ok.1 h
    refine .all fun r hr => ?_
    obtain ⟨p, hp, hpr⟩ := exists_of_mem_bindAll hqs r hr
    exact ih p hp hpr

end Program

end Lockstep
