import Lockstep.Proofs.BranchSequencing
import Lockstep.Proofs.FrameTrails

/-! Continuations that raise. A continuation is called at once for the results that a program can give without
looking at a document. For the results behind a descent it is called when a run enters the descent, and never
where the descent does not match. -/

namespace Lockstep

namespace Program

/-- What can follow a well-formed program in a run is well-formed. -/
theorem WellFormed.of_follows {p q : Program} (hp : p.WellFormed) (h : Frame.Follows q p) : q.WellFormed := by
  cases h with
  | next _ _ _ _ host _ hq => cases hp with | descend h => exact h host q hq
  | checked => cases hp with | check h => exact h
  | member _ _ hq => cases hp with | all h => exact h q hq

end Program

namespace Frame
open Program (FirstRaised WellFormed bindAll bindNext projected bindAll_cons_eq_ok bind_all_eq_ok
  bind_check_eq_ok)

/-- A step of a frame that enters a descent: the lookup matched, the projection returned, its value is of the
declared shape, and this program follows. -/
inductive Enters (frame : Frame) (p : Program) : Prop where
  | intro {segment : Segment} {project : Value → Except Fault Value} {shape : Option Shape}
      {next : Value → Except Fault Program} {part v : Value}
      (program_eq : frame.program = .descend segment project shape next)
      (matched : frame.node.lookup segment = some part) (returned : project frame.host = .ok v)
      (shaped : ∀ declared ∈ shape, declared.test v = .ok true) (followed : next v = .ok p)

/-- What a frame of a run comes to when its program has been continued. A result goes on with what the
continuation makes of it, and where other programs follow, continuing them may raise. -/
def continued (options : RunOptions) (k : Value → Except Fault Program) (frame : Frame) : Report :=
  match frame.program with
  | .done result => (Branch.completed result frame.node frame.host frame.path).continued options k
  | _ => match frame.advance with
    | .go following => match bindAll k (following.map Frame.program) with
      | .ok _ => .empty
      | .error fault => .raised fault
    | .fail failure => .single failure
    | .raise fault => .raised fault

/-- Where a fault of a continued run comes from: a step of the program itself, the continuation, which is called
when a descent is entered, or the run of a program that the continuation made of a result. -/
inductive Raises (options : RunOptions) (k : Value → Except Fault Program) (frame : Frame) (fault : Fault) :
    Prop where
  | own (h : frame.advance = .raise fault)
  | behind {p : Program} (entered : frame.Enters p) (h : FirstRaised k p.eagerResults fault)
  | after {result : Value} {q : Program} (hp : frame.program = .done result) (hk : k result = .ok q)
      (h : (interpret { options with rootLabel := frame.path } q frame.node frame.host).fault? = some fault)

/-- The same state with the program continued. -/
inductive Bound (k : Value → Except Fault Program) : Frame → Frame → Prop where
  | intro {p q : Program} (node host : Value) (path : String) (h : p.bind k = .ok q) :
      Bound k ⟨p, node, host, path⟩ ⟨q, node, host, path⟩

/-- How a continued frame steps, next to the frame. -/
inductive BoundStep (k : Value → Except Fault Program) (frame bound : Frame) : Prop where
  | go {following following' : List Frame} (ha : frame.advance = .go following)
      (hb : bound.advance = .go following') (h : List.Forall₂ (Bound k) following following')
  | cut {first : Frame} {fault : Fault} (ha : frame.advance = .go [first])
      (hb : bound.advance = .raise fault) (entered : frame.Enters first.program)
      (h : first.program.bind k = .error fault)
  | fail (failure : Failure) (ha : frame.advance = .fail failure) (hb : bound.advance = .fail failure)
  | raise (fault : Fault) (ha : frame.advance = .raise fault) (hb : bound.advance = .raise fault)

section Step
variable {options : RunOptions} {k : Value → Except Fault Program} {frame bound : Frame}

private theorem forall₂_bound (node host : Value) (path : String) {ps qs : List Program} (h : bindAll k ps = .ok qs) :
    List.Forall₂ (Bound k) (ps.map fun p => ⟨p, node, host, path⟩) (qs.map fun q => ⟨q, node, host, path⟩) := by
  induction ps generalizing qs with
  | nil => cases h; exact .nil
  | cons p ps ih =>
    obtain ⟨q, rest, hq, hrest, rfl⟩ := bindAll_cons_eq_ok.1 h
    exact .cons (.intro node host path hq) (ih hrest)

private theorem bindAll_of_bound {fs gs : List Frame} (h : List.Forall₂ (Bound k) fs gs) :
    bindAll k (fs.map Frame.program) = .ok (gs.map Frame.program) := by
  induction h with
  | nil => rfl
  | cons hfg _ ih => cases hfg with
    | intro _ _ _ h => exact bindAll_cons_eq_ok.2 ⟨_, _, h, ih, rfl⟩

theorem Bound.step (h : Bound k frame bound) (hdone : ∀ result, frame.program ≠ .done result) :
    BoundStep k frame bound := by
  cases h with
  | @intro p q node host path h =>
    cases p with
    | done result => exact absurd rfl (hdone result)
    | terminate => cases h; exact .go rfl rfl .nil
    | all members =>
      obtain ⟨qs, hqs, rfl⟩ := bind_all_eq_ok.1 h
      exact .go rfl rfl (forall₂_bound node host path hqs)
    | check predicate next =>
      obtain ⟨rest, hrest, rfl⟩ := bind_check_eq_ok.1 h
      cases hv : predicate node with
      | error fault => apply BoundStep.raise fault <;> simp only [advance, hv]
      | ok verdict => cases verdict with
        | some message => apply BoundStep.fail (.rejected path message) <;> simp only [advance, hv]
        | none =>
          refine .go ?_ ?_ (.cons (.intro node host path hrest) .nil) <;> simp only [advance, hv]
    | descend segment project shape next =>
      cases h
      rcases hl : node.find segment with fault | _ | part
      · apply BoundStep.raise fault <;> simp only [advance, hl]
      · apply BoundStep.fail (.missing path segment) <;> simp only [advance, hl]
      · cases hp : projected (path ++ segment.text) project shape host with
        | error fault => apply BoundStep.raise fault <;> simp only [advance, hl, hp]
        | ok v => cases hn : next v with
          | error fault => apply BoundStep.raise fault <;> simp only [advance, hl, hp, hn, bindNext]
          | ok p =>
            have hgo : (⟨.descend segment project shape next, node, host, path⟩ : Frame).advance =
                .go [⟨p, part, v, path ++ segment.text⟩] := by simp only [advance, hl, hp, hn]
            cases hb : p.bind k with
            | error fault =>
              obtain ⟨hv, hshape⟩ := Program.projected_eq_ok_iff.1 hp
              have hentered : Enters ⟨.descend segment project shape next, node, host, path⟩ p :=
                .intro rfl (Value.find_eq_some_iff.1 hl) hv hshape hn
              exact .cut hgo (by simp only [advance, hl, hp, hn, bindNext, hb]) hentered hb
            | ok q =>
              refine .go hgo ?_ (.cons (.intro part v (path ++ segment.text) hb) .nil)
              simp only [advance, hl, hp, hn, bindNext, hb]
    | _ => cases h

private theorem continued_done {result : Value} (h : frame.program = .done result) {q : Program}
    (hk : k result = .ok q) : frame.continued options k =
      interpret { options with rootLabel := frame.path } q frame.node frame.host := by
  simp only [continued, h, Branch.continued, hk]

private theorem continued_other (hdone : ∀ result, frame.program ≠ .done result) :
    frame.continued options k = match frame.advance with
      | .go following => match bindAll k (following.map Frame.program) with
        | .ok _ => .empty
        | .error fault => .raised fault
      | .fail failure => .single failure
      | .raise fault => .raised fault := by
  rw [continued]
  split
  · rename_i result hp
    exact absurd hp (hdone result)
  · rfl

/-- Where a frame goes on, the continued frame goes on with the continued frames, or continuing one raises. -/
theorem Bound.owed_go (options : RunOptions) {following : List Frame} (h : Bound k frame bound)
    (ha : frame.advance = .go following) :
    (∃ following', List.Forall₂ (Bound k) following following' ∧
      bound.owed = frame.continued options k ++ owedByStack following') ∨
    ∃ fault, frame.continued options k = .raised fault ∧ bound.owed = .raised fault := by
  by_cases hdone : ∃ result, frame.program = .done result
  · obtain ⟨result, hp⟩ := hdone
    cases h with
    | @intro p q node host path hk =>
      cases hp
      cases ha
      refine .inl ⟨[], .nil, ?_⟩
      rw [continued_done rfl hk, interpret_eq_walk]
      exact (Findings.append_empty _).symm
  · have hother : ∀ result, frame.program ≠ .done result := fun result hp => hdone ⟨result, hp⟩
    rw [owed_eq_advance, continued_other hother]
    cases h.step hother with
    | go ha' hb hfollowing =>
      cases ha.symm.trans ha'
      refine .inl ⟨_, hfollowing, ?_⟩
      simp only [ha, hb, bindAll_of_bound hfollowing]
      rfl
    | @cut first fault ha' hb _ hk =>
      have hall : bindAll k [first.program] = .error fault := by rw [bindAll, hk]; rfl
      refine .inr ⟨fault, ?_, by rw [hb]⟩
      simp only [ha', List.map_singleton, hall]
    | fail failure ha' => cases ha.symm.trans ha'
    | raise fault ha' => cases ha.symm.trans ha'

/-- Where a frame ends its branch or the run, the continued frame does the same. -/
theorem Bound.owed_stop (h : Bound k frame bound) (ha : ∀ following, frame.advance ≠ .go following) :
    bound.owed = frame.continued options k := by
  have hother : ∀ result, frame.program ≠ .done result := by
    intro result hp
    exact ha [] (by simp only [advance, hp])
  rw [owed_eq_advance, continued_other hother]
  cases h.step hother with
  | go ha' => exact absurd ha' (ha _)
  | cut ha' => exact absurd ha' (ha _)
  | fail failure ha' hb => rw [ha', hb]
  | raise fault ha' hb => rw [ha', hb]

/-- A fault in what a frame comes to is raised at the frame. -/
theorem Bound.raises (h : Bound k frame bound) (hwf : frame.program.WellFormed) {fault : Fault}
    (hfault : (frame.continued options k).fault? = some fault) : frame.Raises options k fault := by
  by_cases hdone : ∃ result, frame.program = .done result
  · obtain ⟨result, hp⟩ := hdone
    obtain ⟨q, hk⟩ : ∃ q, k result = .ok q := by
      cases h with
      | intro node host path h => cases hp; exact ⟨_, h⟩
    rw [continued_done hp hk] at hfault
    exact .after hp hk hfault
  · have hother : ∀ result, frame.program ≠ .done result := fun result hp => hdone ⟨result, hp⟩
    rw [continued_other hother] at hfault
    cases h.step hother with
    | go ha _ hfollowing =>
      simp only [ha, bindAll_of_bound hfollowing] at hfault
      cases hfault
    | @cut first raised ha _ entered hk =>
      have hall : bindAll k [first.program] = .error raised := by rw [bindAll, hk]; rfl
      simp only [ha, List.map_singleton, hall] at hfault
      cases hfault
      have hfirst : Frame.Follows first.program frame.program :=
        follows_of_advance ha first (List.mem_singleton.2 rfl)
      exact .behind entered ((hwf.of_follows hfirst).bind_eq_error.1 hk)
    | fail failure ha =>
      simp only [ha] at hfault
      cases hfault
    | raise raised ha =>
      simp only [ha] at hfault
      cases hfault
      exact .own ha

end Step

end Frame

namespace Findings
variable {α β : Type} {f : α → Findings β} {xs : List α}

theorem fault?_append (a b : Findings α) : (a ++ b).fault? = a.fault?.or b.fault? := by
  obtain ⟨found, _ | fault⟩ := a <;> rfl

/-- What comes after a fault does not matter. -/
theorem append_congr_right {a b c : Findings α} (h : a.fault? = none → b = c) : a ++ b = a ++ c := by
  obtain ⟨found, _ | fault⟩ := a
  · rw [h rfl]
  · rfl

theorem flatMap_cons (x : α) :
    (⟨x :: xs, none⟩ : Findings α).flatMap f = f x ++ (⟨xs, none⟩ : Findings α).flatMap f := rfl

/-- What is found from everything found has no fault only if nothing raises. -/
theorem no_fault_of_flatMap (h : ((⟨xs, none⟩ : Findings α).flatMap f).fault? = none) :
    ∀ x ∈ xs, (f x).fault? = none := by
  induction xs with
  | nil => exact List.forall_mem_nil _
  | cons x xs ih =>
    rw [flatMap_cons, fault?_append, Option.or_eq_none_iff] at h
    exact List.forall_mem_cons.2 ⟨h.1, ih h.2⟩

end Findings

/-- A report that lists what frames come to, in order and up to the first fault, and whose fault is raised at one
of the frames. -/
structure Accounts (options : RunOptions) (k : Value → Except Fault Program) (frames : List Frame)
    (report : Report) : Prop where
  report_eq : report = (⟨frames, none⟩ : Findings Frame).flatMap (Frame.continued options k)
  raises : ∀ fault, report.fault? = some fault → ∃ frame ∈ frames, frame.Raises options k fault

section Stack
variable {options : RunOptions} {k : Value → Except Fault Program} {frame bound : Frame} {frames : List Frame}

theorem Accounts.cons {report : Report} (hb : frame.Bound k bound) (hwf : frame.program.WellFormed)
    (h : Accounts options k frames report) :
    Accounts options k (frame :: frames) (frame.continued options k ++ report) := by
  constructor
  · rw [Findings.flatMap_cons, h.report_eq]
  · intro fault hfault
    rw [Findings.fault?_append, Option.or_eq_some_iff] at hfault
    rcases hfault with hfault | ⟨-, hfault⟩
    · exact ⟨frame, List.mem_cons_self, hb.raises hwf hfault⟩
    · obtain ⟨f, hf, hraises⟩ := h.raises fault hfault
      exact ⟨f, List.mem_cons_of_mem frame hf, hraises⟩

/-- Nothing that comes after a fault is listed. -/
theorem Accounts.cut {fault : Fault} (hb : frame.Bound k bound) (hwf : frame.program.WellFormed)
    (hc : frame.continued options k = .raised fault) : Accounts options k (frame :: frames) (.raised fault) := by
  constructor
  · rw [Findings.flatMap_cons, hc, Findings.raised_append]
  · intro fault' hfault
    exact ⟨frame, List.mem_cons_self, hb.raises hwf (hc ▸ hfault)⟩

/-- The stack of a continued run owes what those frames come to that the run of the program takes. -/
theorem accounts_of_bound {pending stack : List Frame} (h : List.Forall₂ (Frame.Bound k) pending stack)
    (hwf : ∀ frame ∈ pending, frame.program.WellFormed) :
    Accounts options k (takenFrames pending) (owedByStack stack) := by
  fun_induction takenFrames pending generalizing stack with
  | case1 =>
    cases h
    exact ⟨rfl, fun fault hfault => by cases hfault⟩
  | case2 frame rest following ha ih =>
    cases h with
    | @cons _ top _ below hframe hrest =>
      obtain ⟨hwf, hwfs⟩ := List.forall_mem_cons.1 hwf
      rw [owedByStack_cons]
      rcases hframe.owed_go options ha with ⟨gs, hgs, howed⟩ | ⟨fault, hc, howed⟩
      · rw [howed, Findings.append_assoc, ← owedByStack_append]
        refine .cons hframe hwf (ih ?_ ?_) <;> rw [pushFrames_eq_append]
        · exact List.rel_append hgs hrest
        · refine List.forall_mem_append.2 ⟨fun f hf => ?_, hwfs⟩
          exact hwf.of_follows (Frame.follows_of_advance ha f hf)
      · rw [howed, Findings.raised_append]
        exact .cut hframe hwf hc
  | case3 frame rest failure ha ih =>
    cases h with
    | cons hframe hrest =>
      obtain ⟨hwf, hwfs⟩ := List.forall_mem_cons.1 hwf
      rw [owedByStack_cons, hframe.owed_stop (by simp [ha])]
      exact .cons hframe hwf (ih hrest hwfs)
  | case4 frame rest fault ha =>
    cases h with
    | cons hframe hrest =>
      obtain ⟨hwf, -⟩ := List.forall_mem_cons.1 hwf
      have hdone : ∀ result, frame.program ≠ .done result := by
        intro result hp
        simp [Frame.advance, hp] at ha
      have hc : frame.continued options k = .raised fault := by rw [Frame.continued_other hdone, ha]
      rw [owedByStack_cons, hframe.owed_stop (by simp [ha]), hc, Findings.raised_append]
      exact .cut hframe hwf hc

/-- A run raises what a frame raises that it takes. -/
theorem fault?_of_raise {pending : List Frame} {fault : Fault} (found : List Failure)
    (hframe : frame ∈ takenFrames pending) (ha : frame.advance = .raise fault) :
    (runFrames pending found).fault? = some fault := by
  fun_induction runFrames pending found with
  | case1 found => simp [takenFrames] at hframe
  | case2 found top rest following htop ih =>
    rw [takenFrames_go htop] at hframe
    rcases List.mem_cons.1 hframe with rfl | hframe
    · cases ha.symm.trans htop
    · exact ih hframe
  | case3 found top rest failure htop ih =>
    rw [takenFrames_fail htop] at hframe
    rcases List.mem_cons.1 hframe with rfl | hframe
    · cases ha.symm.trans htop
    · exact ih hframe
  | case4 found top rest raised htop =>
    rw [takenFrames_raise htop, List.mem_singleton] at hframe
    cases hframe
    cases ha.symm.trans htop
    rfl

/-- What a run raises is raised by a frame that it takes. -/
theorem exists_raise_of_fault? (pending : List Frame) (found : List Failure) {fault : Fault}
    (h : (runFrames pending found).fault? = some fault) :
    ∃ frame ∈ takenFrames pending, frame.advance = .raise fault := by
  fun_induction runFrames pending found with
  | case1 found => cases h
  | case2 found top rest following htop ih =>
    obtain ⟨frame, hframe, ha⟩ := ih h
    rw [takenFrames_go htop]
    exact ⟨frame, List.mem_cons_of_mem top hframe, ha⟩
  | case3 found top rest failure htop ih =>
    obtain ⟨frame, hframe, ha⟩ := ih h
    rw [takenFrames_fail htop]
    exact ⟨frame, List.mem_cons_of_mem top hframe, ha⟩
  | case4 found top rest raised htop =>
    cases h
    exact ⟨top, mem_takenFrames_cons, htop⟩

/-- A frame that fails comes to its failure. -/
theorem Frame.found_continued {failure : Failure} (h : frame.failure? = some failure) :
    (frame.continued options k).found = [failure] := by
  have ha : frame.advance = .fail failure := by
    unfold Frame.failure? at h
    split at h
    · cases h; assumption
    · cases h
  have hdone : ∀ result, frame.program ≠ .done result := by
    intro result hp
    simp [Frame.advance, hp] at ha
  rw [Frame.continued_other hdone, ha]
  rfl

private theorem Accounts.fault?_eq_none {report : Report} (h : Accounts options k frames report)
    (hfree : ∀ frame ∈ frames, ∀ fault, ¬ frame.Raises options k fault) : report.fault? = none := by
  rw [Option.eq_none_iff_forall_ne_some]
  intro fault hfault
  obtain ⟨frame, hframe, hraises⟩ := h.raises fault hfault
  exact hfree frame hframe fault hraises

/-- Where nothing raises, the failure of every frame is listed. -/
theorem Accounts.mem_found {report : Report} (h : Accounts options k frames report) (hfree : report.fault? = none)
    {failure : Failure} (hframe : frame ∈ frames) (hf : frame.failure? = some failure) : failure ∈ report.found := by
  rw [h.report_eq] at hfree ⊢
  rw [Findings.flatMap_of_no_fault (Findings.no_fault_of_flatMap hfree)]
  apply List.mem_flatMap.2
  refine ⟨frame, hframe, ?_⟩
  rw [Frame.found_continued hf]
  exact List.mem_singleton.2 rfl

/-- The run of a continued program lists what those frames come to that the run of the program takes. -/
theorem accounts_interpret {p q : Program} (hp : p.WellFormed) (hq : p.bind k = .ok q) (options : RunOptions)
    (document host : Value) :
    Accounts options k (takenFrames [⟨p, document, host, options.rootLabel⟩])
      (interpret options q document host) := by
  have hbound : Frame.Bound k ⟨p, document, host, options.rootLabel⟩ ⟨q, document, host, options.rootLabel⟩ :=
    .intro document host options.rootLabel hq
  have hrun : interpret options q document host = owedByStack [⟨q, document, host, options.rootLabel⟩] :=
    runFrames_eq_owed _ []
  rw [hrun]
  exact accounts_of_bound (.cons hbound .nil) (List.forall_mem_singleton.2 hp)

end Stack

/-- Continuing a program raises exactly what the continuation raises on the first such eager result. Otherwise it gives
a program, whose run raises the continuation's fault only behind a descent that was entered. -/
theorem bind_raises_iff {p : Program} (hp : p.WellFormed) (k : Value → Except Fault Program) :
    (∀ fault, p.bind k = .error fault ↔ Program.FirstRaised k p.eagerResults fault) ∧
    ((∃ q, p.bind k = .ok q) ↔ ∀ result ∈ p.eagerResults, ∃ q, k result = .ok q) ∧
    ∀ q, p.bind k = .ok q → ∀ (options : RunOptions) (document host : Value),
      let frames := takenFrames [⟨p, document, host, options.rootLabel⟩]
      interpret options q document host = (⟨frames, none⟩ : Findings Frame).flatMap (Frame.continued options k) ∧
      (∀ fault, (interpret options q document host).fault? = some fault →
        ∃ frame ∈ frames, frame.Raises options k fault) ∧
      ((∀ frame ∈ frames, ∀ behind, frame.Enters behind → ∀ result ∈ behind.eagerResults, ∃ r, k result = .ok r) →
        (interpret options p document host).fault? = none →
        (∀ frame ∈ frames, ∀ result r, frame.program = .done result → k result = .ok r →
          (interpret { options with rootLabel := frame.path } r frame.node frame.host).fault? = none) →
        ∃ texts, (interpret options q document host).messages options = .ok texts ∧
          ∀ failure ∈ (interpret options p document host).found, failure.text options ∈ texts) := by
  refine ⟨fun fault => hp.bind_eq_error, hp.bind_eq_ok, fun q hq options document host => ?_⟩
  intro frames
  have haccounts : Accounts options k frames (interpret options q document host) :=
    accounts_interpret hp hq options document host
  refine ⟨haccounts.report_eq, haccounts.raises, fun hbehind hown hafter => ?_⟩
  have hfree : (interpret options q document host).fault? = none := by
    apply haccounts.fault?_eq_none
    intro frame hframe fault hraises
    cases hraises with
    | own ha =>
      have hfault : (interpret options p document host).fault? = some fault := fault?_of_raise [] hframe ha
      rw [hown] at hfault
      cases hfault
    | behind hentered hfirst =>
      obtain ⟨before, result, after, hresults, hk, -⟩ := hfirst
      obtain ⟨r, hr⟩ := hbehind frame hframe _ hentered result (by simp [hresults])
      cases hk.symm.trans hr
    | after hdone hk hfault =>
      rw [hafter frame hframe _ _ hdone hk] at hfault
      cases hfault
  refine ⟨(interpret options q document host).found.map (Failure.text options), ?_, fun failure hfailure => ?_⟩
  · rw [Report.messages, Findings.outcome, hfree]
    rfl
  · rw [interpret, found_runFrames] at hfailure
    obtain ⟨frame, hframe, hf⟩ := List.mem_filterMap.1 hfailure
    exact List.mem_map_of_mem (haccounts.mem_found hfree hframe hf)

theorem bind_raises_iff_fanOut :
    let refuse : Value → Except Fault Program := fun _ => .error .unrenderable
    let keep : Value → Except Fault Program
      | .int n => .ok (.done (.int n))
      | _ => .error .unrenderable
    Program.fanOut.bind refuse = .error .unrenderable ∧
    ∃ q, Program.fanOut.bind keep = .ok q ∧
      ∃ texts, (interpret {} q .null .null).messages {} = .ok texts ∧
        "subject[\"name\"] failed to match any targets" ∈ texts := by
  intro refuse keep
  obtain ⟨hraises, -, -⟩ := bind_raises_iff Program.fanOut_wellFormed refuse
  obtain ⟨-, hgives, hruns⟩ := bind_raises_iff Program.fanOut_wellFormed keep
  obtain ⟨q, hq⟩ := hgives.2 (List.forall_mem_singleton.2 ⟨.done (.int 1), rfl⟩)
  obtain ⟨-, -, hreports⟩ := hruns q hq {} .null .null
  -- The descent does not match, so its only result, on which the continuation raises, is never had.
  have hframes : takenFrames [⟨Program.fanOut, .null, .null, "subject"⟩] =
      [⟨Program.fanOut, .null, .null, "subject"⟩, ⟨.key "name", .null, .null, "subject"⟩,
        ⟨.done (.int 1), .null, .null, "subject"⟩, ⟨.terminate, .null, .null, "subject"⟩] := by
    rw [takenFrames_go rfl, pushFrames_eq_append, Program.fanOut, List.map_cons, List.cons_append,
      takenFrames_fail rfl]
    simp [takenFrames_go, takenFrames, Frame.advance, pushFrames]
  obtain ⟨texts, htexts, hmem⟩ : ∃ texts, (interpret {} q .null .null).messages {} = .ok texts ∧
      ∀ failure ∈ (interpret {} Program.fanOut .null .null).found, failure.text {} ∈ texts := by
    apply hreports
    · rintro frame hframe behind ⟨hp, hmatched, -, -, -⟩
      rw [hframes] at hframe
      simp only [List.mem_cons, List.not_mem_nil, or_false] at hframe
      rcases hframe with rfl | rfl | rfl | rfl <;> cases hp
      cases hmatched
    · rw [interpret_eq_walk]
      rfl
    · intro frame hframe result r hp hr
      rw [hframes] at hframe
      simp only [List.mem_cons, List.not_mem_nil, or_false] at hframe
      rcases hframe with rfl | rfl | rfl | rfl <;> cases hp
      cases hr
      rw [interpret_eq_walk]
      rfl
  refine ⟨(hraises _).2 ⟨[], .int 1, [], rfl, rfl, List.forall_mem_nil _⟩, q, hq, texts, htexts, ?_⟩
  refine hmem (.missing "subject" (.key "name")) ?_
  rw [interpret_eq_walk]
  exact List.mem_singleton.2 rfl

end Lockstep
