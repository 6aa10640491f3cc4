import Lockstep.Proofs.RaisingContinuations

/-! Combinations continued with anything are a monoid. A combination inside of a combination is as good as its
members in its place, the combination of one program is as good as the program, and a combination of two lists runs
the one and then the other. What one member comes to is put between what its neighbours come to and changes
neither. -/

namespace Lockstep

namespace Findings
variable {α β : Type}

private theorem flatMap_congr {f g : α → Findings β} {r : Findings α} (h : ∀ a ∈ r.found, f a = g a) :
    r.flatMap f = r.flatMap g :=
  List.foldr_ext _ _ _ fun a ha rest => by rw [h a ha]

end Findings

/-- What branches add to a report is no fault. -/
theorem Branch.fault?_flatMap_report (r : Findings Branch) : (r.flatMap Branch.report).fault? = r.fault? := by
  obtain ⟨found, fault?⟩ := r
  induction found with
  | nil => rfl
  | cons b found ih =>
    have hb : b.report.fault? = none := by cases b <;> rfl
    have hcons : (⟨b :: found, fault?⟩ : Findings Branch).flatMap Branch.report =
        b.report ++ (⟨found, fault?⟩ : Findings Branch).flatMap Branch.report := rfl
    rw [hcons, Findings.fault?_append, hb, Option.none_or]
    exact ih

/-- A branch has a result to go on with. -/
def Branch.IsCompleted (b : Branch) : Prop := ∃ result node host path, b = .completed result node host path

private theorem Branch.continued_of_not_completed {b : Branch} (h : ¬ b.IsCompleted) (options : RunOptions)
    (k : Value → Except Fault Program) : b.continued options k = b.report := by
  cases b with
  | completed result node host path => exact absurd ⟨result, node, host, path, rfl⟩ h
  | _ => rfl

/-- Two ways to build a program that no run tells apart: both raise the same fault, or both give programs that
report the same. -/
inductive Interchangeable : Except Fault Program → Except Fault Program → Prop where
  | fault (fault : Fault) : Interchangeable (.error fault) (.error fault)
  | programs {p q : Program} (h : ∀ options document host,
      interpret options p document host = interpret options q document host) : Interchangeable (.ok p) (.ok q)

private theorem Interchangeable.of_walk {p q : Program}
    (h : ∀ node host path, p.walk node host path = q.walk node host path) : Interchangeable (.ok p) (.ok q) := by
  refine .programs fun options document host => ?_
  rw [interpret_eq_walk, interpret_eq_walk, h]

namespace Program
variable {k : Value → Except Fault Program}

section Branches
variable {node host : Value} {path : String}

private theorem fault?_walk (p : Program) : (walk node host path p).fault? = (branches node host path p).fault? := by
  rw [walk_eq_branches, Branch.fault?_flatMap_report]

private theorem branchesAll_bind_of_no_fault {ps qs : List Program} (h : bindAll k ps = .ok qs)
    (hfree : (branchesAll node host path qs).fault? = none)
    (ih : ∀ p ∈ ps, ∀ {q : Program}, bind k p = .ok q → (branches node host path q).fault? = none →
      branches node host path q = (branches node host path p).flatMap (Branch.extended k)) :
    branchesAll node host path qs = (branchesAll node host path ps).flatMap (Branch.extended k) := by
  induction ps generalizing qs with
  | nil => cases h; rfl
  | cons p ps ihs =>
    obtain ⟨q, rest, hq, hrest, rfl⟩ := bindAll_cons_eq_ok.1 h
    obtain ⟨hp, hps⟩ := List.forall_mem_cons.1 ih
    rw [branchesAll, Findings.fault?_append, Option.or_eq_none_iff] at hfree
    rw [branchesAll, branchesAll, Findings.flatMap_append, hp hq hfree.1, ihs hrest hfree.2 hps]

/-- Also a continuation that may raise makes of every branch what it makes of the branch, in a run in which it does
not. -/
theorem WellFormed.branches_bind_of_no_fault {p q : Program} (hp : p.WellFormed) (h : bind k p = .ok q)
    (hfree : (branches node host path q).fault? = none) :
    branches node host path q = (branches node host path p).flatMap (Branch.extended k) := by
  induction hp generalizing q node host path with
  | done result =>
    rw [bind] at h
    rw [branches, Findings.flatMap_single, Branch.extended, h, branchesNext]
  | @descend segment project shape next _ ih =>
    cases h
    rw [branches] at hfree
    rw [branches, branches]
    rcases hl : node.find segment with fault | _ | part
    · rfl
    · rfl
    · simp only [hl] at hfree
      cases hv : projected (path ++ segment.text) project shape host with
      | error fault => rfl
      | ok v => cases hn : next v with
        | error fault => simp only [hn, bindNext, branchesNext, Findings.flatMap_raised]
        | ok p =>
          simp only [hv, hn, bindNext] at hfree
          simp only [hn, bindNext, branchesNext]
          -- The continuation is called here, and a fault of it would be one of the run.
          cases hq : bind k p with
          | error fault => rw [hq] at hfree; cases hfree
          | ok q => exact ih v p hn hq (by rw [hq] at hfree; exact hfree)
  | @check predicate next _ ih =>
    obtain ⟨rest, hrest, rfl⟩ := bind_check_eq_ok.1 h
    rw [branches] at hfree
    rw [branches, branches]
    cases hv : predicate node with
    | error fault => rfl
    | ok verdict => cases verdict with
      | some message => rfl
      | none => exact ih hrest (by simpa only [hv] using hfree)
  | terminate => cases h; rfl
  | all _ ih =>
    obtain ⟨qs, hqs, rfl⟩ := bind_all_eq_ok.1 h
    exact branchesAll_bind_of_no_fault hqs hfree fun p hp _ hq hfree => ih p hp hq hfree

/-- A program none of whose branches completes reports the same whatever it is continued with. -/
theorem WellFormed.walk_bind_of_not_completed {p q : Program} (hp : p.WellFormed) (h : bind k p = .ok q)
    (hfree : (walk node host path q).fault? = none)
    (hends : ∀ b ∈ (branches node host path p).found, ¬ b.IsCompleted) :
    walk node host path q = walk node host path p := by
  rw [fault?_walk] at hfree
  rw [walk_eq_branches, walk_eq_branches, hp.branches_bind_of_no_fault h hfree, Findings.flatMap_flatMap]
  refine Findings.flatMap_congr fun b hb => ?_
  rw [Branch.report_extended {}, Branch.continued_of_not_completed (hends b hb)]

end Branches

/-- Programs combined, and continued. -/
def combined (k : Value → Except Fault Program) (ps : List Program) : Except Fault Program := do
  (← allOf ps).bind k

section Combined
variable {ps xs ys zs : List Program}

private theorem WellFormed.intruder?_eq {p : Program} (hp : p.WellFormed) : p.intruder? = none := by
  cases hp <;> rfl

theorem allOf_eq (h : ∀ p ∈ ps, p.WellFormed) : allOf ps = .ok (.all ps) := by
  have hnone : ps.findSome? intruder? = none :=
    List.findSome?_eq_none_iff.2 fun p hp => (h p hp).intruder?_eq
  rw [allOf, hnone]

private theorem combined_eq (h : ∀ p ∈ ps, p.WellFormed) : combined k ps = (bindAll k ps).map .all := by
  rw [combined, allOf_eq h]
  exact rfl

theorem bindAll_append (xs ys : List Program) :
    bindAll k (xs ++ ys) = (do pure ((← bindAll k xs) ++ (← bindAll k ys))) := by
  induction xs with
  | nil => rw [List.nil_append, bindAll]; exact (bind_pure _).symm
  | cons p xs ih =>
    rw [List.cons_append, bindAll, bindAll, ih]
    simp only [bind_assoc, pure_bind, List.cons_append]

theorem walkAll_append (node host : Value) (path : String) (xs ys : List Program) :
    walkAll node host path (xs ++ ys) = walkAll node host path xs ++ walkAll node host path ys := by
  rw [walkAll_eq_concat, walkAll_eq_concat, walkAll_eq_concat, List.map_append, Findings.concat_append]

private theorem combined_eq_ok_iff (h : ∀ p ∈ ps, p.WellFormed) {q : Program} :
    combined k ps = .ok q ↔ ∃ qs, bindAll k ps = .ok qs ∧ q = .all qs := by
  rw [combined, allOf_eq h]
  exact bind_all_eq_ok

/-- A combination among programs raises and runs as its members in its place do. -/
theorem combined_nested (h : ∀ p ∈ xs ++ ys ++ zs, p.WellFormed) :
    Interchangeable (combined k (xs ++ .all ys :: zs)) (combined k (xs ++ ys ++ zs)) := by
  have hnested : ∀ p ∈ xs ++ .all ys :: zs, p.WellFormed := by
    simp only [List.forall_mem_append, List.forall_mem_cons] at h ⊢
    exact ⟨h.1.1, .all h.1.2, h.2⟩
  rw [combined_eq h, combined_eq hnested, bindAll_append, bindAll_append, bindAll_append, bindAll, bind]
  cases bindAll k xs with
  | error fault => exact .fault fault
  | ok as => cases bindAll k ys with
    | error fault => exact .fault fault
    | ok bs => cases bindAll k zs with
      | error fault => exact .fault fault
      | ok cs =>
        refine .of_walk fun node host path => ?_
        calc walkAll node host path (as ++ .all bs :: cs)
            = walkAll node host path as ++ (walkAll node host path bs ++ walkAll node host path cs) := by
              rw [walkAll_append, walkAll, walk]
          _ = walkAll node host path (as ++ bs ++ cs) := by
              rw [walkAll_append, walkAll_append, Findings.append_assoc]

/-- The combination of one program raises and runs as the program does. -/
theorem combined_singleton {p : Program} (hp : p.WellFormed) : Interchangeable (combined k [p]) (p.bind k) := by
  rw [combined_eq (List.forall_mem_singleton.2 hp), bindAll, bindAll]
  cases bind k p with
  | error fault => exact .fault fault
  | ok q => exact .of_walk fun node host path => Findings.append_empty _

/-- Of two lists the first raises first. -/
theorem raised?_combined_append (h : ∀ p ∈ xs ++ ys, p.WellFormed) :
    raised? (combined k (xs ++ ys)) = (raised? (combined k xs)).or (raised? (combined k ys)) := by
  obtain ⟨hxs, hys⟩ := List.forall_mem_append.1 h
  rw [combined_eq h, combined_eq hxs, combined_eq hys, bindAll_append]
  simp only [raised?_map]
  refine raised?_bind _ _ _ fun as => ?_
  rw [raised?_bind (bindAll k ys) _ none fun _ => rfl, Option.or_none]

/-- Two lists are combined where each of them is, and run one after the other. -/
theorem combined_append (h : ∀ p ∈ xs ++ ys, p.WellFormed) {q r : Program} (hq : combined k xs = .ok q)
    (hr : combined k ys = .ok r) : ∃ s, combined k (xs ++ ys) = .ok s ∧ ∀ options document host,
      interpret options s document host = interpret options q document host ++ interpret options r document host := by
  obtain ⟨hxs, hys⟩ := List.forall_mem_append.1 h
  obtain ⟨qs, hqs, rfl⟩ := (combined_eq_ok_iff hxs).1 hq
  obtain ⟨rs, hrs, rfl⟩ := (combined_eq_ok_iff hys).1 hr
  refine ⟨.all (qs ++ rs), (combined_eq_ok_iff h).2 ⟨_, ?_, rfl⟩, fun options document host => ?_⟩
  · rw [bindAll_append, hqs, hrs]
    rfl
  · rw [interpret_eq_walk, interpret_eq_walk, interpret_eq_walk, walk, walk, walk, walkAll_append]

private theorem exists_combined_append (h : ∀ p ∈ xs ++ ys, p.WellFormed) {r : Program}
    (hr : combined k (xs ++ ys) = .ok r) : ∃ first second, combined k xs = .ok first ∧ combined k ys = .ok second := by
  have hnone := raised?_combined_append (k := k) h
  rw [hr, raised?_ok, eq_comm, Option.or_eq_none_iff, raised?_eq_none, raised?_eq_none] at hnone
  obtain ⟨⟨first, hfirst⟩, second, hsecond⟩ := hnone
  exact ⟨first, second, hfirst, hsecond⟩

private theorem messages_append_eq_ok {options : RunOptions} {a b : Report} {texts : List String} :
    (a ++ b : Report).messages options = .ok texts ↔
      ∃ front back, a.messages options = .ok front ∧ b.messages options = .ok back ∧ texts = front ++ back := by
  rw [messages_append]
  cases a.messages options <;> cases b.messages options <;>
    simp [Bind.bind, Except.bind, Pure.pure, Except.pure, eq_comm]

/-- A program put among others adds what it reports between what they report. -/
theorem combined_insert (h : ∀ p ∈ xs ++ ys, p.WellFormed) {p q r : Program} (hp : p.WellFormed)
    (hq : p.bind k = .ok q) (hr : combined k (xs ++ ys) = .ok r) :
    ∃ first second s, combined k xs = .ok first ∧ combined k ys = .ok second ∧
      combined k (xs ++ p :: ys) = .ok s ∧ ∀ options document host,
        let run (p : Program) := interpret options p document host
        run r = run first ++ run second ∧ run s = run first ++ (run q ++ run second) := by
  obtain ⟨hxs, hys⟩ := List.forall_mem_append.1 h
  have hcons : ∀ p' ∈ [p] ++ ys, p'.WellFormed := List.forall_mem_cons.2 ⟨hp, hys⟩
  obtain ⟨first, second, hfirst, hsecond⟩ := exists_combined_append h hr
  have hone : combined k [p] = .ok (.all [q]) := by
    rw [combined_eq (List.forall_mem_singleton.2 hp), bindAll, bindAll, hq]
    rfl
  obtain ⟨rest, hrest, hrunRest⟩ := combined_append hcons hone hsecond
  obtain ⟨s, hs, hrunWhole⟩ := combined_append (List.forall_mem_append.2 ⟨hxs, hcons⟩) hfirst hrest
  obtain ⟨r', hr', hrunOthers⟩ := combined_append h hfirst hsecond
  cases hr.symm.trans hr'
  refine ⟨first, second, s, hfirst, hsecond, hs, fun options document host => ⟨hrunOthers .., ?_⟩⟩
  have hrunOne : interpret options (.all [q]) document host = interpret options q document host := by
    rw [interpret_eq_walk, interpret_eq_walk]
    exact Findings.append_empty _
  change interpret options s document host = _
  rw [hrunWhole, hrunRest, hrunOne]

end Combined

/-- Combinations are a monoid before any continuation: one among programs behaves as its members in its place, and
the combination of one program as the program. Of two lists the first raises first, and where neither raises, a run of
both reports what the first reports and then what the second does. -/
theorem allOf_monoid {xs ys zs : List Program} (h : ∀ p ∈ xs ++ ys ++ zs, p.WellFormed)
    (k : Value → Except Fault Program) :
    Interchangeable (do combined k (xs ++ (← allOf ys) :: zs)) (combined k (xs ++ ys ++ zs)) ∧
    (∀ p, p.WellFormed → Interchangeable (combined k [p]) (p.bind k)) ∧
    raised? (combined k (xs ++ ys)) = (raised? (combined k xs)).or (raised? (combined k ys)) ∧
    (∀ q r, combined k xs = .ok q → combined k ys = .ok r → ∃ s, combined k (xs ++ ys) = .ok s ∧
      ∀ options document host,
        let run (p : Program) := interpret options p document host
        run s = run q ++ run r ∧ ∀ front back, (run q).messages options = .ok front →
          (run r).messages options = .ok back → (run s).messages options = .ok (front ++ back)) ∧
    ∀ p q r, p.WellFormed → p.bind k = .ok q → combined k (xs ++ ys) = .ok r →
      ∃ first s, combined k xs = .ok first ∧ combined k (xs ++ p :: ys) = .ok s ∧
        ∀ options document host texts own,
          let messages (p : Program) := (interpret options p document host).messages options
          messages r = .ok texts → messages q = .ok own →
            (∃ front back, messages first = .ok front ∧ texts = front ++ back ∧
              messages s = .ok (front ++ own ++ back)) ∧
            ((∀ b ∈ (p.branches document host options.rootLabel).found, ¬ b.IsCompleted) →
              messages p = .ok own) := by
  obtain ⟨hxy, hzs⟩ := List.forall_mem_append.1 h
  obtain ⟨hxs, hys⟩ := List.forall_mem_append.1 hxy
  refine ⟨?_, fun p hp => combined_singleton hp, raised?_combined_append hxy, ?_, ?_⟩
  · rw [allOf_eq hys]
    exact combined_nested h
  · intro q r hq hr
    obtain ⟨s, hs, hrun⟩ := combined_append hxy hq hr
    refine ⟨s, hs, fun options document host => ⟨hrun options document host, fun front back hfront hback => ?_⟩⟩
    simp only [hrun options document host]
    exact messages_append_eq_ok.2 ⟨front, back, hfront, hback, rfl⟩
  · intro p q r hp hq hr
    obtain ⟨first, second, s, hfirst, -, hs, hruns⟩ := combined_insert hxy hp hq hr
    refine ⟨first, s, hfirst, hs, fun options document host texts own => ?_⟩
    intro messages htexts hown
    obtain ⟨hothers, hwhole⟩ := hruns options document host
    refine ⟨?_, fun hends => ?_⟩
    · simp only [messages, hothers] at htexts
      obtain ⟨front, back, hfront, hback, rfl⟩ := messages_append_eq_ok.1 htexts
      refine ⟨front, back, hfront, rfl, ?_⟩
      simp only [messages, hwhole, List.append_assoc]
      exact messages_append_eq_ok.2 ⟨front, _, hfront, messages_append_eq_ok.2 ⟨own, back, hown, hback, rfl⟩, rfl⟩
    · have hfree : (interpret options q document host).fault? = none := (Report.messages_eq_ok.1 hown).1
      rw [interpret_eq_walk] at hfree
      rw [← hown]
      simp only [messages, interpret_eq_walk, hp.walk_bind_of_not_completed hq hfree hends]

theorem allOf_monoid_fanOut :
    let k : Value → Except Fault Program
      | .int _ => .ok (.key "next")
      | _ => .error .unrenderable
    let missing (name : String) := "subject[\"" ++ name ++ "\"] failed to match any targets"
    let messages (p : Program) := (interpret {} p .null .null).messages {}
    Interchangeable (do combined k ([fanOut] ++ (← allOf [.key "age"]) :: [fanOut]))
      (combined k ([fanOut] ++ [.key "age"] ++ [fanOut])) ∧
    Interchangeable (combined k [.done .null]) (.error .unrenderable) ∧
    ∃ both more, combined k ([fanOut] ++ [.key "age"]) = .ok both ∧
      messages both = .ok [missing "name", missing "next", missing "age"] ∧
      combined k ([fanOut] ++ .key "height" :: [.key "age"]) = .ok more ∧
      messages more = .ok [missing "name", missing "next", missing "height", missing "age"] := by
  intro k missing messages
  have hwf : ∀ p ∈ [fanOut] ++ [.key "age"] ++ [fanOut], p.WellFormed := by
    simp only [List.cons_append, List.nil_append, List.forall_mem_cons]
    exact ⟨fanOut_wellFormed, .key "age" .ok none, fanOut_wellFormed, List.forall_mem_nil _⟩
  obtain ⟨hnested, hsingle, -, hboth, hinsert⟩ := allOf_monoid hwf k
  have hfirst : messages (.all [.all [.descend (.key "name") .ok none fun host => bindNext k (.ok (.done host)),
      .key "next", .terminate]]) = .ok [missing "name", missing "next"] := by
    simp only [messages, interpret_eq_walk]
    rfl
  have hsecond : messages (.all [.descend (.key "age") .ok none fun host => bindNext k (.ok (.done host))]) =
      .ok [missing "age"] := by
    simp only [messages, interpret_eq_walk]
    rfl
  have hheight : messages (.descend (.key "height") .ok none fun host => bindNext k (.ok (.done host))) =
      .ok [missing "height"] := by
    simp only [messages, interpret_eq_walk]
    rfl
  obtain ⟨both, hs, hrun⟩ := hboth _ _ rfl rfl
  obtain ⟨-, hmessages⟩ := hrun {} .null .null
  have hreported := hmessages _ _ hfirst hsecond
  obtain ⟨first, more, hq, hmore, hinserted⟩ := hinsert (.key "height") _ both (.key "height" .ok none) rfl hs
  cases hq
  obtain ⟨⟨front, back, hfront, htexts, hwhole⟩, -⟩ := hinserted {} .null .null _ _ hreported hheight
  cases hfirst.symm.trans hfront
  cases List.append_cancel_left htexts
  exact ⟨hnested, hsingle _ (.done .null), both, more, hs, hreported, hmore, hwhole⟩

end Program

end Lockstep
