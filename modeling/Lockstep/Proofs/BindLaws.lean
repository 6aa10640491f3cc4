import Lockstep.Program.Equality
import Lockstep.Proofs.PendingFrames
import Lockstep.Proofs.WellFormedPrograms

/-! Programs form a monad: a result is a unit for continuing, and continuing twice is continuing once with
the continuations joined. Trees are compared node by node, and behind a descent host value by host value. -/

namespace Lockstep.Program

mutual

/-- Two trees of the same shape whose nodes hold the same things. -/
inductive Alike : Program → Program → Prop where
  | done (result : Value) : Alike (.done result) (.done result)
  | descend (segment : Segment) (project : Value → Except Fault Value) (shape : Option Shape)
      {next next' : Value → Except Fault Program} (h : ∀ host, AlikeNext (next host) (next' host)) :
      Alike (.descend segment project shape next) (.descend segment project shape next')
  | check (predicate : Value → Except Fault (Option String)) {next next' : Program} (h : Alike next next') :
      Alike (.check predicate next) (.check predicate next')
  | terminate : Alike .terminate .terminate
  | all {ps qs : List Program} (h : AlikeAll ps qs) : Alike (.all ps) (.all qs)
  | blank : Alike .blank .blank
  | stray (instruction : Value) : Alike (.stray instruction) (.stray instruction)
  | foreign (v : Value) : Alike (.foreign v) (.foreign v)

/-- Both are programs, and alike, or both raise the same fault. -/
inductive AlikeNext : Except Fault Program → Except Fault Program → Prop where
  | ok {p q : Program} (h : Alike p q) : AlikeNext (.ok p) (.ok q)
  | error (fault : Fault) : AlikeNext (.error fault) (.error fault)

inductive AlikeAll : List Program → List Program → Prop where
  | nil : AlikeAll [] []
  | cons {p q : Program} {ps qs : List Program} (h : Alike p q) (hs : AlikeAll ps qs) :
      AlikeAll (p :: ps) (q :: qs)

end

theorem AlikeAll.eq {ps qs : List Program} (h : AlikeAll ps qs)
    (ih : ∀ p ∈ ps, ∀ {q : Program}, Alike p q → p = q) : ps = qs := by
  induction ps generalizing qs with
  | nil => cases h; rfl
  | cons p ps ihs =>
    obtain ⟨hp, hps⟩ := List.forall_mem_cons.1 ih
    cases h with
    | cons h hs => rw [hp h, ihs hs hps]

/-- Alike trees are equal: what two descents make of every host value decides their continuations. -/
theorem Alike.eq {p q : Program} (h : Alike p q) : p = q := by
  induction p generalizing q with
  | descend segment project shape next ih =>
    cases h with
    | @descend _ _ _ _ next' h =>
      have hnext : next = next' := by
        funext host
        have hh := h host
        generalize next' host = made at hh
        cases hn : next host with
        | error fault => rw [hn] at hh; cases hh; rfl
        | ok p => rw [hn] at hh; cases hh with | ok hpq => rw [ih host p hn hpq]
      rw [hnext]
  | check predicate next ih =>
    cases h with
    | check _ h => rw [ih h]
  | all members ih =>
    cases h with
    | all h => rw [h.eq fun p hp => ih p hp]
  | _ => cases h; rfl

theorem AlikeAll.refl {ps : List Program} (h : ∀ p ∈ ps, Alike p p) : AlikeAll ps ps := by
  induction ps with
  | nil => exact .nil
  | cons p ps ih =>
    obtain ⟨hp, hps⟩ := List.forall_mem_cons.1 h
    exact .cons hp (ih hps)

theorem Alike.refl (p : Program) : Alike p p := by
  induction p with
  | done result => exact .done result
  | descend segment project shape next ih =>
    refine .descend segment project shape fun host => ?_
    cases hn : next host with
    | error fault => exact .error fault
    | ok p => exact .ok (ih host p hn)
  | check predicate next ih => exact .check predicate ih
  | terminate => exact .terminate
  | all members ih => exact .all (.refl ih)
  | blank => exact .blank
  | stray instruction => exact .stray instruction
  | foreign v => exact .foreign v

theorem AlikeNext.refl (o : Except Fault Program) : AlikeNext o o := by
  cases o with
  | error fault => exact .error fault
  | ok p => exact .ok (.refl p)

theorem bindAll_done {ps : List Program} (h : ∀ p ∈ ps, p.bind (fun r => .ok (.done r)) = .ok p) :
    bindAll (fun r => .ok (.done r)) ps = .ok ps := by
  induction ps with
  | nil => rfl
  | cons p ps ih =>
    obtain ⟨hp, hps⟩ := List.forall_mem_cons.1 h
    exact bindAll_cons_eq_ok.2 ⟨p, ps, hp, ih hps, rfl⟩

/-- Continuing with the result itself changes nothing. -/
theorem WellFormed.bind_done {p : Program} (hp : p.WellFormed) : p.bind (fun r => .ok (.done r)) = .ok p := by
  induction hp with
  | done result => rfl
  | @descend segment project shape next _ ih =>
    have hnext : (fun host => bindNext (fun r => .ok (.done r)) (next host)) = next := by
      funext host
      cases hn : next host with
      | error fault => rfl
      | ok p => exact ih host p hn
    rw [bind, hnext]
  | check _ ih => exact bind_check_eq_ok.2 ⟨_, ih, rfl⟩
  | terminate => rfl
  | all _ ih => exact bind_all_eq_ok.2 ⟨_, bindAll_done ih, rfl⟩

section Joined
variable {f g : Value → Except Fault Program}

theorem bindNext_eq_bind (o : Except Fault Program) : bindNext g o = (do (← o).bind g) := by cases o <;> rfl

theorem bindAll_bindAll {ps qs : List Program} (h : bindAll f ps = .ok qs)
    (ih : ∀ p ∈ ps, ∀ {q : Program}, bind f p = .ok q → bind g q = bind (fun r => bindNext g (f r)) p) :
    bindAll g qs = bindAll (fun r => bindNext g (f r)) ps := by
  induction ps generalizing qs with
  | nil => cases h; rfl
  | cons p ps ihs =>
    obtain ⟨q, rest, hq, hrest, rfl⟩ := bindAll_cons_eq_ok.1 h
    obtain ⟨hp, hps⟩ := List.forall_mem_cons.1 ih
    rw [bindAll, bindAll, hp hq, ihs hrest hps]

/-- Continuing twice is continuing once with both. The first continuation must not raise: a fault of the
second one would otherwise be met before a later fault of the first. -/
theorem WellFormed.bind_bind {p q : Program} (hp : p.WellFormed) (hf : ∀ r, ∃ q, f r = .ok q)
    (h : bind f p = .ok q) : bind g q = bind (fun r => bindNext g (f r)) p := by
  induction hp generalizing q with
  | done result =>
    rw [bind] at h
    rw [bind, h, bindNext]
  | @descend segment project shape next hwf ih =>
    cases h
    rw [bind, bind]
    congr 2
    funext host
    cases hn : next host with
    | error fault => rfl
    | ok p =>
      obtain ⟨q, hq⟩ := (hwf host p hn).bind_ok hf
      rw [bindNext, hq]
      exact ih host p hn hq
  | check _ ih =>
    obtain ⟨rest, hrest, rfl⟩ := bind_check_eq_ok.1 h
    rw [bind, bind, ih hrest]
  | terminate => cases h; rfl
  | all _ ih =>
    obtain ⟨qs, hqs, rfl⟩ := bind_all_eq_ok.1 h
    rw [bind, bind, bindAll_bindAll hqs ih]

theorem map_done_ok {u : Value → Except Fault Value} (hu : ∀ a, ∃ b, u a = .ok b) (a : Value) :
    ∃ q, (u a).map Program.done = .ok q := by
  obtain ⟨b, hb⟩ := hu a
  exact ⟨.done b, congrArg (Except.map Program.done) hb⟩

/-- Changing a result twice is changing it once with both functions. -/
theorem WellFormed.map_map {p q : Program} {u v : Value → Except Fault Value} (hp : p.WellFormed)
    (hu : ∀ a, ∃ b, u a = .ok b) (h : p.map u = .ok q) : q.map v = p.map fun a => (u a).bind v := by
  rw [map, hp.bind_bind (map_done_ok hu) h, map]
  congr 1
  funext a
  obtain ⟨b, hb⟩ := hu a
  rw [hb]
  rfl

end Joined

/-- A result continued is the continuation's program, a program continued with its own result is alike to
itself, and continuing twice is alike to continuing once with the continuations joined. Changing results
obeys the laws of a functor, and alike programs find the same in every run. -/
theorem bind_monad_laws {p : Program} {f g : Value → Except Fault Program} (hp : p.WellFormed)
    (hf : Proper f) (hg : Proper g) :
    (∀ a, (Program.done a).bind f = f a) ∧
    AlikeNext (p.bind fun a => .ok (.done a)) (.ok p) ∧
    (∃ q r, p.bind f = .ok q ∧ q.bind g = .ok r ∧ AlikeNext (p.bind fun a => do (← f a).bind g) (.ok r)) ∧
    AlikeNext (p.map .ok) (.ok p) ∧
    (∀ u v : Value → Except Fault Value, (∀ a, ∃ b, u a = .ok b) →
      ∃ q, p.map u = .ok q ∧ AlikeNext (q.map v) (p.map fun a => (u a).bind v)) ∧
    (∀ s t : Program, Alike s t → ∀ (options : RunOptions) (document host : Value),
      interpret options s document host = interpret options t document host) := by
  refine ⟨fun a => rfl, ?_, ?_, ?_, fun u v hu => ?_, fun s t h => h.eq ▸ fun _ _ _ => rfl⟩
  · rw [hp.bind_done]
    exact .refl _
  · obtain ⟨q, hq⟩ := hp.bind_ok hf.total
    obtain ⟨r, hr⟩ := (hp.of_bind hf hq).bind_ok hg.total
    refine ⟨q, r, hq, hr, ?_⟩
    rw [← hr, hp.bind_bind hf.total hq, funext fun a => bindNext_eq_bind (f a)]
    exact .refl _
  · exact hp.bind_done ▸ .refl _
  · obtain ⟨q, hq⟩ := hp.bind_ok (map_done_ok hu)
    exact ⟨q, hq, hp.map_map hu hq ▸ .refl _⟩

theorem bind_monad_laws_fanOut :
    let f : Value → Except Fault Program := fun a => .ok (.all [.key "age", .done a])
    let g : Value → Except Fault Program := fun a => .ok (.require (equalTo a))
    let u : Value → Except Fault Value := fun a => .ok (.list [a])
    (∃ q r, fanOut.bind f = .ok q ∧ q.bind g = .ok r ∧
      AlikeNext (fanOut.bind fun a => do (← f a).bind g) (.ok r)) ∧
    (∃ q, fanOut.map u = .ok q ∧ AlikeNext (q.map u) (fanOut.map fun a => (u a).bind u)) ∧
    interpret {} (.key "age") (.object []) .null =
      interpret {} (.descend (.key "age") .ok none fun a => (u a).map fun _ => .done a) (.object []) .null := by
  intro f g u
  have hf : Proper f := fun a => ⟨_, rfl, .all (by simpa using ⟨.key "age" .ok none, .done a⟩)⟩
  have hg : Proper g := fun a => ⟨_, rfl, .require (equalTo a)⟩
  obtain ⟨-, -, hjoin, -, hmap, halike⟩ := bind_monad_laws fanOut_wellFormed hf hg
  have hkey : Alike (.key "age") (.descend (.key "age") .ok none fun a => (u a).map fun _ => .done a) :=
    .descend _ _ _ fun a => .ok (.done a)
  exact ⟨hjoin, hmap u u fun a => ⟨_, rfl⟩, halike _ _ hkey {} (.object []) .null⟩

end Lockstep.Program
