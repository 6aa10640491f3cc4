import Lockstep.Proofs.PendingFrames
import Lockstep.Proofs.PlainDocuments

/-! Document, host value and path stay in lockstep. Every frame that a run takes from its stack stands where
the descents on its own branch have led: its path names their segments, its node is found along them, and
its host value has been passed through their projections. So every failure tells the truth about a place
in the document. -/

namespace Lockstep

/-- A descent that was carried out: the segment that matched and the projection that was applied. -/
structure Descent where
  segment : Segment
  project : Value → Except Fault Value

/-- The trail of the segments of some descents, the last one first. -/
def trailOf (descents : List Descent) : Trail := descents.map Descent.segment

/-- A host value passed through the projections of some descents, of which the last one comes first. -/
def projectAlong (host : Value) : List Descent → Except Fault Value
  | [] => .ok host
  | d :: descents => (projectAlong host descents).bind d.project

/-- The frames that a run takes from its stack, in the order in which it takes them. -/
def takenFrames (pending : List Frame) : List Frame :=
  match pending with
  | [] => []
  | frame :: rest => match _h : frame.advance with
    | .go following => frame :: takenFrames (pushFrames following rest)
    | .fail _ => frame :: takenFrames rest
    | .raise _ => [frame]
termination_by pending
decreasing_by
  · rw [pushFrames_eq_append]; exact .replace _ _ _ (Frame.follows_of_advance _h)
  · exact .replace _ [] _ (by simp)

namespace Program

section Projected
variable {path : String} {project : Value → Except Fault Value} {shape : Option Shape} {host v : Value}

theorem projected_none : projected path project none host = project host := by
  rw [projected]
  cases project host <;> rfl

theorem projected_of_error {fault : Fault} (h : project host = .error fault) :
    projected path project shape host = .error fault := by
  rw [projected, h]
  rfl

theorem projected_of_untested {declared : Shape} {fault : Fault} (h : project host = .ok v)
    (ht : declared.test v = .error fault) : projected path project (some declared) host = .error fault := by
  simp only [projected, h, ht, Bind.bind, Except.bind]

theorem projected_of_misfit {declared : Shape} (h : project host = .ok v) (ht : declared.test v = .ok false) :
    projected path project (some declared) host = .error (.shapeMismatch path v.typeName declared.name) := by
  simp only [projected, h, ht, Bind.bind, Except.bind]
  rfl

theorem projected_of_fits (h : project host = .ok v) (ht : ∀ declared ∈ shape, declared.test v = .ok true) :
    projected path project shape host = .ok v := by
  cases shape with
  | none => simp only [projected, h, Bind.bind, Except.bind]; rfl
  | some declared => simp only [projected, h, ht declared rfl, Bind.bind, Except.bind]; rfl

/-- What a projection and a shape can come to. -/
theorem projected_cases (project : Value → Except Fault Value) (shape : Option Shape) (host : Value) :
    (∃ fault, project host = .error fault) ∨
    (∃ v declared fault, project host = .ok v ∧ shape = some declared ∧ declared.test v = .error fault) ∨
    (∃ v declared, project host = .ok v ∧ shape = some declared ∧ declared.test v = .ok false) ∨
    ∃ v, project host = .ok v ∧ ∀ declared ∈ shape, declared.test v = .ok true := by
  cases hv : project host with
  | error fault => exact .inl ⟨fault, rfl⟩
  | ok v => cases shape with
    | none => exact .inr (.inr (.inr ⟨v, rfl, by simp⟩))
    | some declared =>
      rcases ht : declared.test v with fault | _ | _
      · exact .inr (.inl ⟨v, declared, fault, rfl, rfl, ht⟩)
      · exact .inr (.inr (.inl ⟨v, declared, rfl, rfl, ht⟩))
      · exact .inr (.inr (.inr ⟨v, rfl, by simpa using ht⟩))

/-- What a projection gives that a descent can go on with. -/
theorem projected_eq_ok_iff : projected path project shape host = .ok v ↔
    project host = .ok v ∧ ∀ declared ∈ shape, declared.test v = .ok true := by
  rcases projected_cases project shape host with
    ⟨fault, hv⟩ | ⟨w, declared, fault, hv, rfl, ht⟩ | ⟨w, declared, hv, rfl, ht⟩ | ⟨w, hv, ht⟩
  · simp [projected_of_error hv, hv]
  · rw [projected_of_untested hv ht, hv]
    constructor
    · nofun
    · rintro ⟨⟨⟩, hfits⟩
      cases ht.symm.trans (hfits declared rfl)
  · rw [projected_of_misfit hv ht, hv]
    constructor
    · nofun
    · rintro ⟨⟨⟩, hfits⟩
      cases ht.symm.trans (hfits declared rfl)
  · rw [projected_of_fits hv ht, hv]
    constructor
    · rintro ⟨⟩
      exact ⟨rfl, ht⟩
    · exact And.left

end Projected

end Program

namespace Frame

/-- The failure that a frame ends with, if it does. -/
def failure? (frame : Frame) : Option Failure :=
  match frame.advance with
  | .fail failure => some failure
  | _ => none

/-- The descent that a step of a frame carries out. -/
def executed (frame : Frame) : List Descent :=
  match frame.program with
  | .descend segment project _ _ => [⟨segment, project⟩]
  | _ => []

/-- The second frame follows from the first by steps that carry out these descents, the last one first. -/
inductive Descends (start : Frame) : List Descent → Frame → Prop where
  | start : Descends start [] start
  | step {descents : List Descent} {frame next : Frame} {following : List Frame}
      (h : Descends start descents frame) (ha : frame.advance = .go following) (hn : next ∈ following) :
      Descends start (frame.executed ++ descents) next

theorem Descends.after {start first frame : Frame} {following : List Frame} {descents : List Descent}
    (h : Descends first descents frame) (ha : start.advance = .go following) (hf : first ∈ following) :
    Descends start (descents ++ start.executed) frame := by
  induction h with
  | start => simpa using Descends.step .start ha hf
  | step _ hb hn ih => rw [List.append_assoc]; exact .step ih hb hn

/-- A frame stands where some descents lead from a document and its host value. -/
structure InStep (root : String) (document host : Value) (descents : List Descent) (frame : Frame) : Prop where
  path_eq : frame.path = Trail.label root (trailOf descents)
  follow_eq : document.follow (trailOf descents) = some frame.node
  project_eq : projectAlong host descents = .ok frame.host

/-- Everything that a step can go on with: the one frame behind a descent that matched, or frames in the
present state. -/
theorem go_cases {frame : Frame} {following : List Frame} (h : frame.advance = .go following) :
    (∃ segment project shape next part v p, frame.program = .descend segment project shape next ∧
      frame.node.lookup segment = some part ∧
      Program.projected (frame.path ++ segment.text) project shape frame.host = .ok v ∧
      following = [⟨p, part, v, frame.path ++ segment.text⟩]) ∨
    (frame.executed = [] ∧
      ∀ f ∈ following, f.node = frame.node ∧ f.host = frame.host ∧ f.path = frame.path) := by
  obtain ⟨program, node, host, path⟩ := frame
  cases program with
  | done result => cases h; exact .inr ⟨rfl, List.forall_mem_nil _⟩
  | terminate => cases h; exact .inr ⟨rfl, List.forall_mem_nil _⟩
  | all members =>
    cases h
    refine .inr ⟨rfl, fun f hf => ?_⟩
    obtain ⟨member, -, rfl⟩ := List.mem_map.1 hf
    exact ⟨rfl, rfl, rfl⟩
  | check predicate next =>
    simp only [advance] at h
    split at h
    · cases h
    · cases h
    · cases h
      exact .inr ⟨rfl, List.forall_mem_singleton.2 ⟨rfl, rfl, rfl⟩⟩
  | descend segment project shape next =>
    simp only [advance] at h
    split at h
    · cases h
    · cases h
    · rename_i part hpart
      split at h
      · cases h
      · rename_i v hv
        split at h
        · cases h
        · cases h
          exact .inl ⟨segment, project, shape, next, part, v, _, rfl, Value.find_eq_some_iff.1 hpart, hv, rfl⟩
  | _ => cases h

section Invariant
variable {root : String} {document host : Value} {descents : List Descent} {frame next : Frame}

/-- A step keeps node, host value and path together. -/
theorem InStep.of_advance {following : List Frame} (h : frame.InStep root document host descents)
    (ha : frame.advance = .go following) (hn : next ∈ following) :
    next.InStep root document host (frame.executed ++ descents) := by
  -- Only a descent changes the state, and then path, node and host value are all one segment further.
  rcases go_cases ha with ⟨segment, project, shape, k, part, v, p, hp, hpart, hv, rfl⟩ | ⟨he, hsame⟩
  · have he : frame.executed = [⟨segment, project⟩] := by rw [executed, hp]
    have hproject := (Program.projected_eq_ok_iff.1 hv).1
    cases List.mem_singleton.1 hn
    rw [he, List.singleton_append]
    constructor
    · exact congrArg (· ++ segment.text) h.path_eq
    · change (document.follow (trailOf descents)).bind _ = some part
      rw [h.follow_eq]
      exact hpart
    · rw [projectAlong, h.project_eq]
      exact hproject
  · obtain ⟨hnode, hhost, hpath⟩ := hsame next hn
    rw [he, List.nil_append]
    exact ⟨hpath.trans h.path_eq, hnode ▸ h.follow_eq, hhost ▸ h.project_eq⟩

/-- Wherever the steps of a branch lead, the frame stands where the descents on the way have led. -/
theorem Descends.inStep {program : Program} (h : Descends ⟨program, document, host, root⟩ descents frame) :
    frame.InStep root document host descents := by
  induction h with
  | start => exact ⟨rfl, rfl, rfl⟩
  | step _ ha hn ih => exact ih.of_advance ha hn

end Invariant

/-- What a message says of a frame that stands at the end of a trail. -/
inductive Explains (options : RunOptions) (frame : Frame) (trail : Trail) (text : String) : Prop where
  | rejected {predicate : Value → Except Fault (Option String)} {next : Program} {message : String}
      (hp : frame.program = .check predicate next) (h : predicate frame.node = .ok (some message))
      (ht : text = Trail.label options.rootLabel trail ++ " failed assertion\n" ++ message)
  | missingKey {name : String} {project : Value → Except Fault Value} {shape : Option Shape}
      {next : Value → Except Fault Program}
      (hp : frame.program = .descend (.key name) project shape next) (h : frame.node.lookupKey name = none)
      (ht : text = Trail.label options.rootLabel (.key name :: trail) ++ " failed to match any targets")
  | missingIndex {position : Nat} {project : Value → Except Fault Value} {shape : Option Shape}
      {next : Value → Except Fault Program}
      (hp : frame.program = .descend (.index position) project shape next)
      (h : frame.node.lookupIndex position = none)
      (ht : text = Trail.label options.rootLabel
        (if options.indexInFailures then .index position :: trail else trail) ++ " failed to match any targets")

/-- Everything that can be behind a failure. -/
theorem fail_cases {frame : Frame} {failure : Failure} (h : frame.failure? = some failure) :
    (∃ predicate next message, frame.program = .check predicate next ∧
      predicate frame.node = .ok (some message) ∧ failure = .rejected frame.path message) ∨
    (∃ segment project shape next, frame.program = .descend segment project shape next ∧
      frame.node.lookup segment = none ∧ failure = .missing frame.path segment) := by
  obtain ⟨program, node, host, path⟩ := frame
  cases program with
  | check predicate next =>
    cases hm : predicate node with
    | error fault => simp [failure?, advance, hm] at h
    | ok verdict => cases verdict with
      | none => simp [failure?, advance, hm] at h
      | some message =>
        have hf : Failure.rejected path message = failure := by simpa [failure?, advance, hm] using h
        exact .inl ⟨predicate, next, message, rfl, hm, hf.symm⟩
  | descend segment project shape next =>
    rcases hl : node.find segment with fault | _ | part
    · simp [failure?, advance, hl] at h
    · have hf : Failure.missing path segment = failure := by simpa [failure?, advance, hl] using h
      exact .inr ⟨segment, project, shape, next, rfl, (Value.find_eq_none_iff.1 hl).1, hf.symm⟩
    · simp only [failure?, advance, hl] at h
      cases hv : Program.projected (path ++ segment.text) project shape host with
      | error fault => simp [hv] at h
      | ok v => cases hk : next v <;> simp [hv, hk] at h
  | _ => simp [failure?, advance] at h

/-- The failure of a frame explains what is the case where the frame stands. -/
theorem InStep.explains {options : RunOptions} {document host : Value} {descents : List Descent}
    {frame : Frame} {failure : Failure} (hs : frame.InStep options.rootLabel document host descents)
    (h : frame.failure? = some failure) : frame.Explains options (trailOf descents) (failure.text options) := by
  rcases fail_cases h with ⟨predicate, next, message, hp, hm, rfl⟩ | ⟨segment, project, shape, next, hp, hl, rfl⟩
  · refine .rejected hp hm ?_
    rw [← hs.path_eq, String.append_assoc]
    rfl
  · cases segment with
    | key name =>
      refine .missingKey hp hl ?_
      rw [Trail.label, ← hs.path_eq]
      rfl
    | index position =>
      refine .missingIndex hp hl ?_
      rw [Program.text_missing, Program.missMessage]
      cases options.indexInFailures with
      | true => exact congrArg (· ++ _ ++ _) hs.path_eq
      | false => simpa using hs.path_eq

end Frame

section Taken
variable {frame : Frame} {rest following : List Frame}

theorem takenFrames_go (h : frame.advance = .go following) :
    takenFrames (frame :: rest) = frame :: takenFrames (pushFrames following rest) := by
  rw [takenFrames]
  split <;> rename_i h' <;> cases h.symm.trans h'
  rfl

theorem takenFrames_fail {failure : Failure} (h : frame.advance = .fail failure) :
    takenFrames (frame :: rest) = frame :: takenFrames rest := by
  rw [takenFrames]
  split <;> rename_i h' <;> cases h.symm.trans h'
  rfl

theorem takenFrames_raise {fault : Fault} (h : frame.advance = .raise fault) :
    takenFrames (frame :: rest) = [frame] := by
  rw [takenFrames]
  split <;> rename_i h' <;> cases h.symm.trans h'
  rfl

theorem takenFrames_cons (frame : Frame) (rest : List Frame) :
    takenFrames (frame :: rest) = frame :: match frame.advance with
      | .go following => takenFrames (following ++ rest)
      | .fail _ => takenFrames rest
      | .raise _ => [] := by
  cases h : frame.advance with
  | go following => rw [takenFrames_go h, pushFrames_eq_append]
  | fail failure => rw [takenFrames_fail h]
  | raise fault => rw [takenFrames_raise h]

theorem mem_takenFrames_cons : frame ∈ takenFrames (frame :: rest) := by
  rw [takenFrames]
  split <;> exact List.mem_cons_self

end Taken

/-- The report of a run lists the failures of the frames it takes, in the order in which it takes them. -/
theorem found_runFrames (pending : List Frame) (found : List Failure) :
    (runFrames pending found).found = found.reverse ++ (takenFrames pending).filterMap Frame.failure? := by
  fun_induction runFrames pending found with
  | case1 found => simp [takenFrames]
  | case2 found frame rest following h ih =>
    have hf : frame.failure? = none := by rw [Frame.failure?, h]
    rw [ih, takenFrames_go h, List.filterMap_cons_none hf]
  | case3 found frame rest failure h ih =>
    have hf : frame.failure? = some failure := by rw [Frame.failure?, h]
    rw [ih, takenFrames_fail h, List.filterMap_cons_some hf, List.reverse_cons, List.append_assoc]
    rfl
  | case4 found frame rest fault h =>
    have hf : frame.failure? = none := by rw [Frame.failure?, h]
    rw [takenFrames_raise h, List.filterMap_cons_none hf, List.filterMap_nil, List.append_nil]

/-- Every frame that is taken follows from one of those that were pending at first. -/
theorem descends_of_mem_takenFrames (pending : List Frame) :
    ∀ frame ∈ takenFrames pending, ∃ start ∈ pending, ∃ descents, start.Descends descents frame := by
  fun_induction takenFrames pending with
  | case1 => exact List.forall_mem_nil _
  | case2 frame rest following h ih =>
    refine List.forall_mem_cons.2 ⟨⟨frame, List.mem_cons_self, [], .start⟩, fun f hf => ?_⟩
    obtain ⟨start, hstart, descents, hd⟩ := ih f hf
    rw [pushFrames_eq_append] at hstart
    rcases List.mem_append.1 hstart with hstart | hstart
    · exact ⟨frame, List.mem_cons_self, _, hd.after h hstart⟩
    · exact ⟨start, List.mem_cons_of_mem _ hstart, descents, hd⟩
  | case3 frame rest failure h ih =>
    refine List.forall_mem_cons.2 ⟨⟨frame, List.mem_cons_self, [], .start⟩, fun f hf => ?_⟩
    obtain ⟨start, hstart, descents, hd⟩ := ih f hf
    exact ⟨start, List.mem_cons_of_mem _ hstart, descents, hd⟩
  | case4 frame rest fault h =>
    exact List.forall_mem_singleton.2 ⟨frame, List.mem_cons_self, [], .start⟩

/-- Document, host value and path stay in lockstep: each frame that a run takes lies at the end of one trail in all
three of them. What is reported are the failures of these frames in order, and each says what is the case at the end
of its trail. -/
theorem interpret_in_lockstep (options : RunOptions) (program : Program) (document host : Value) :
    let start : Frame := ⟨program, document, host, options.rootLabel⟩
    (∀ frame ∈ takenFrames [start], ∃ descents, start.Descends descents frame ∧
      frame.InStep options.rootLabel document host descents) ∧
    (interpret options program document host).found = (takenFrames [start]).filterMap Frame.failure? ∧
    (∀ failure ∈ (interpret options program document host).found,
      ∃ frame ∈ takenFrames [start], ∃ descents, start.Descends descents frame ∧
        frame.InStep options.rootLabel document host descents ∧
        frame.Explains options (trailOf descents) (failure.text options)) := by
  intro start
  have hframes : ∀ frame ∈ takenFrames [start], ∃ descents, start.Descends descents frame ∧
      frame.InStep options.rootLabel document host descents := by
    intro frame hframe
    obtain ⟨first, hfirst, descents, hd⟩ := descends_of_mem_takenFrames [start] frame hframe
    cases List.mem_singleton.1 hfirst
    exact ⟨descents, hd, hd.inStep⟩
  have hfound := found_runFrames [start] []
  refine ⟨hframes, hfound, fun failure hfailure => ?_⟩
  rw [interpret, hfound] at hfailure
  obtain ⟨frame, hframe, hf⟩ := List.mem_filterMap.1 hfailure
  obtain ⟨descents, hd, hs⟩ := hframes frame hframe
  exact ⟨frame, hframe, descents, hd, hs, hs.explains hf⟩

theorem interpret_in_lockstep_missingItem :
    let document : Value := .object [("tags", .list [])]
    let program : Program := .descend (.key "tags") .ok none fun _ =>
      .ok (.descend (.index 0) .ok none fun host => .ok (.done host))
    let start : Frame := ⟨program, document, .null, "subject"⟩
    (start ∈ takenFrames [start] ∧
      ∃ descents, start.Descends descents start ∧ start.InStep "subject" document .null descents) ∧
    (.missing "subject[\"tags\"]" (.index 0) ∈ (interpret {} program document .null).found ∧
      ∃ frame ∈ takenFrames [start], ∃ descents, start.Descends descents frame ∧
        frame.InStep "subject" document .null descents ∧
        frame.Explains {} (trailOf descents) "subject[\"tags\"] failed to match any targets") := by
  intro document program start
  obtain ⟨hframes, -, hfailures⟩ := interpret_in_lockstep {} program document .null
  have hstart : start ∈ takenFrames [start] := mem_takenFrames_cons
  have hmissing : .missing "subject[\"tags\"]" (.index 0) ∈ (interpret {} program document .null).found := by
    have hpart : document.find (.key "tags") = .ok (some (.list [])) :=
      Value.find_eq_some_iff.2 (Value.lookupKey_object [("tags", .list [])] "tags")
    rw [interpret_eq_walk, Program.walk, hpart]
    exact List.mem_singleton.2 rfl
  exact ⟨⟨hstart, hframes start hstart⟩, hmissing, hfailures _ hmissing⟩

end Lockstep
