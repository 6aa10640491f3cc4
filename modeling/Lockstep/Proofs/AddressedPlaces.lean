import Lockstep.Proofs.RaisingContinuations

/-! A run looks only at what it addresses: the places that it descends to, the nodes that it applies predicates to,
and the lookups that find nothing. Two documents that agree in these are the same to the program, whatever else
they hold. -/

namespace Lockstep

namespace Findings
variable {α : Type} {a b : Findings α} {x : α}

theorem mem_append_left (h : x ∈ a.found) : x ∈ (a ++ b).found := by
  obtain ⟨found, _ | fault⟩ := a
  · exact List.mem_append_left b.found h
  · exact h

theorem mem_append_right (hfree : a.fault? = none) (h : x ∈ b.found) : x ∈ (a ++ b).found := by
  obtain ⟨found, _ | fault⟩ := a
  · exact List.mem_append_right found h
  · cases hfree

private theorem found_append_found (a b : Findings α) : (a ++ ⟨b.found, none⟩ : Findings α).found = (a ++ b).found := by
  obtain ⟨found, _ | fault⟩ := a <;> rfl

end Findings

/-- One thing that a run does at a place of its document. -/
inductive Access (Place : Type) where
  /-- It descends to the place. -/
  | reached (place : Place)
  /-- It looks for a part of the place and finds none. -/
  | missed (place : Place) (segment : Segment)
  /-- It applies a predicate to the node at the place. -/
  | judged (place : Place) (node : Value) (verdict : Except Fault (Option String))

namespace Access

/-- The access with the label of its place, as the frames of a run have it. -/
def labelled (root : String) : Access Trail → Access String
  | .reached trail => .reached (Trail.label root trail)
  | .missed trail segment => .missed (Trail.label root trail) segment
  | .judged trail node verdict => .judged (Trail.label root trail) node verdict

/-- What an access adds to the report. -/
def report : Access String → Report
  | .reached _ => .empty
  | .missed path segment => if segment.isWritable then .single (.missing path segment) else .raised .digitLimit
  | .judged path _ verdict => match verdict with
    | .error fault => .raised fault
    | .ok (some message) => .single (.rejected path message)
    | .ok none => .empty

/-- A document has at the place of an access what the access depends on. -/
def HoldsIn (document : Value) : Access Trail → Prop
  | .reached trail => ∃ node, document.follow trail = some node
  | .missed trail segment => document.follow (segment :: trail) = none
  | .judged trail node _ => document.follow trail = some node

end Access

/-- What the step of a frame does to the document. -/
def Frame.accesses (frame : Frame) : List (Access String) :=
  match frame.program with
  | .descend segment _ _ _ => match frame.node.lookup segment with
    | none => [.missed frame.path segment]
    | some _ => [.reached (frame.path ++ segment.text)]
  | .check predicate _ => [.judged frame.path frame.node (predicate frame.node)]
  | _ => []

/-- Accesses with the labels of their places. -/
def labelledAccesses (root : String) (a : Findings (Access Trail)) : Findings (Access String) :=
  ⟨a.found.map (Access.labelled root), a.fault?⟩

private theorem labelledAccesses_append (root : String) (a b : Findings (Access Trail)) :
    labelledAccesses root (a ++ b) = labelledAccesses root a ++ labelledAccesses root b := by
  obtain ⟨as, _ | fault⟩ := a
  · exact congrArg (Findings.mk · b.fault?) List.map_append
  · rfl

namespace Program

mutual

/-- What a run does to its document from the node at a trail on, in order. -/
def accesses (root : String) (node host : Value) (trail : Trail) : Program → Findings (Access Trail)
  | .done _ => .empty
  | .descend segment project shape next => match node.find segment with
    | .error fault => .single (.missed trail segment) ++ .raised fault
    | .ok none => .single (.missed trail segment)
    | .ok (some part) => .single (.reached (segment :: trail)) ++
      match projected (Trail.label root (segment :: trail)) project shape host with
      | .error fault => .raised fault
      | .ok v => accessesNext root part v (segment :: trail) (next v)
  | .check predicate next => .single (.judged trail node (predicate node)) ++
      match predicate node with
      | .error fault => .raised fault
      | .ok (some _) => .empty
      | .ok none => accesses root node host trail next
  | .terminate => .empty
  | .all members => accessesAll root node host trail members
  | .blank => .raised (.unsupportedNode "Program")
  | .stray instruction => .raised (.unsupportedInstruction instruction.typeName)
  | .foreign v => .raised (.unsupportedNode v.typeName)

def accessesNext (root : String) (node host : Value) (trail : Trail) : Except Fault Program → Findings (Access Trail)
  | .ok p => accesses root node host trail p
  | .error fault => .raised fault

def accessesAll (root : String) (node host : Value) (trail : Trail) : List Program → Findings (Access Trail)
  | [] => .empty
  | p :: ps => accesses root node host trail p ++ accessesAll root node host trail ps

end

section Runs
variable {root : String} {host : Value} {trail : Trail}

private theorem walkAll_eq_accesses {ps : List Program} {node : Value}
    (h : ∀ p ∈ ps, walk node host (Trail.label root trail) p =
      (accesses root node host trail p).flatMap fun a => (a.labelled root).report) :
    walkAll node host (Trail.label root trail) ps =
      (accessesAll root node host trail ps).flatMap fun a => (a.labelled root).report := by
  induction ps with
  | nil => rfl
  | cons p ps ih =>
    obtain ⟨hp, hps⟩ := List.forall_mem_cons.1 h
    rw [walkAll, accessesAll, Findings.flatMap_append, hp, ih hps]

/-- The report of a run is what its accesses add to it. -/
theorem walk_eq_accesses (p : Program) (node host : Value) (trail : Trail) :
    walk node host (Trail.label root trail) p =
      (accesses root node host trail p).flatMap fun a => (a.labelled root).report := by
  induction p generalizing node host trail with
  | descend segment project shape next ih =>
    rw [walk, accesses]
    rcases hl : node.find segment with fault | _ | part
    · obtain ⟨-, hlong, rfl⟩ := Value.find_eq_error_iff.1 hl
      rw [Findings.flatMap_append, Findings.flatMap_single, Access.labelled, Access.report, if_neg hlong]
      rfl
    · obtain ⟨-, hshort⟩ := Value.find_eq_none_iff.1 hl
      rw [Findings.flatMap_single, Access.labelled, Access.report, if_pos hshort]
    · have hlabel : Trail.label root trail ++ segment.text = Trail.label root (segment :: trail) := rfl
      simp only [hlabel]
      rw [Findings.flatMap_append]
      cases projected (Trail.label root (segment :: trail)) project shape host with
      | error fault => rfl
      | ok v => cases hn : next v with
        | error fault => simp only [hn]; rfl
        | ok p => simp only [hn]; exact ih v p hn part v (segment :: trail)
  | check predicate next ih =>
    rw [walk, accesses, Findings.flatMap_append]
    cases predicate node with
    | error fault => rfl
    | ok verdict => cases verdict with
      | some message => rfl
      | none => exact ih node host trail
  | all members ih =>
    rw [walk, accesses]
    exact walkAll_eq_accesses fun p hp => ih p hp node host trail
  | _ => rfl

private theorem accessesAll_takenFrames {ps : List Program} {node : Value}
    (h : ∀ p ∈ ps, ∀ rest,
      (takenFrames (⟨p, node, host, Trail.label root trail⟩ :: rest)).flatMap Frame.accesses =
      (labelledAccesses root (accesses root node host trail p) ++
        ⟨(takenFrames rest).flatMap Frame.accesses, none⟩).found) (rest : List Frame) :
    (takenFrames (ps.map (fun p => ⟨p, node, host, Trail.label root trail⟩) ++ rest)).flatMap Frame.accesses =
      (labelledAccesses root (accessesAll root node host trail ps) ++
        ⟨(takenFrames rest).flatMap Frame.accesses, none⟩).found := by
  induction ps with
  | nil => rfl
  | cons p ps ih =>
    obtain ⟨hp, hps⟩ := List.forall_mem_cons.1 h
    rw [List.map_cons, List.cons_append, hp, ih hps, accessesAll, labelledAccesses_append, Findings.append_assoc,
      Findings.found_append_found]

/-- The frames that a stack takes have the accesses of its top program first, and those of the frames below only if
these do not end with a fault. -/
theorem accesses_takenFrames (p : Program) (node host : Value) (trail : Trail) (rest : List Frame) :
    (takenFrames (⟨p, node, host, Trail.label root trail⟩ :: rest)).flatMap Frame.accesses =
      (labelledAccesses root (accesses root node host trail p) ++
        ⟨(takenFrames rest).flatMap Frame.accesses, none⟩).found := by
  -- The frames below are general: those of later members stand there while a member is run.
  induction p generalizing node host trail rest with
  | descend segment project shape next ih =>
    have hlabel : Trail.label root trail ++ segment.text = Trail.label root (segment :: trail) := rfl
    rw [accesses, takenFrames_cons, List.flatMap_cons]
    rcases hl : node.find segment with fault | _ | part
    · simp only [Frame.advance, Frame.accesses, hl, (Value.find_eq_error_iff.1 hl).1]
      rfl
    · simp only [Frame.advance, Frame.accesses, hl, (Value.find_eq_none_iff.1 hl).1]
      rfl
    · simp only [Frame.advance, Frame.accesses, hl, Value.find_eq_some_iff.1 hl, hlabel]
      rw [labelledAccesses_append, Findings.append_assoc]
      cases projected (Trail.label root (segment :: trail)) project shape host with
      | error fault => rfl
      | ok v => cases hn : next v with
        | error fault =>
          simp only [hn]
          rfl
        | ok p =>
          simp only [hn, List.singleton_append, ih v p hn]
          rfl
  | check predicate next ih =>
    rw [accesses, takenFrames_cons, List.flatMap_cons, labelledAccesses_append, Findings.append_assoc]
    simp only [Frame.advance, Frame.accesses]
    cases predicate node with
    | error fault => rfl
    | ok verdict => cases verdict with
      | some message => rfl
      | none =>
        simp only [List.singleton_append, ih]
        rfl
  | all members ih =>
    rw [accesses, takenFrames_cons, List.flatMap_cons]
    exact accessesAll_takenFrames (fun p hp => ih p hp node host trail) rest
  | _ =>
    rw [accesses, takenFrames_cons, List.flatMap_cons]
    rfl

private theorem accessesAll_congr {ps : List Program} {node node' document : Value}
    (h : ∀ p ∈ ps, (∀ a ∈ (accesses root node host trail p).found, a.HoldsIn document) →
      accesses root node' host trail p = accesses root node host trail p)
    (hholds : ∀ a ∈ (accessesAll root node host trail ps).found, a.HoldsIn document) :
    accessesAll root node' host trail ps = accessesAll root node host trail ps := by
  induction ps with
  | nil => rfl
  | cons p ps ih =>
    obtain ⟨hp, hps⟩ := List.forall_mem_cons.1 h
    rw [accessesAll] at hholds
    rw [accessesAll, accessesAll, hp fun a ha => hholds a (Findings.mem_append_left ha)]
    exact Findings.append_congr_right fun hfree =>
      ih hps fun a ha => hholds a (Findings.mem_append_right hfree ha)

/-- A run from another node does what the run from a node does if the document has the same at the places that this
run addresses. -/
theorem accesses_congr (p : Program) {node node' host document : Value} {trail : Trail}
    (hnode : document.follow trail = some node')
    (hholds : ∀ a ∈ (accesses root node host trail p).found, a.HoldsIn document) :
    accesses root node' host trail p = accesses root node host trail p := by
  -- The nodes of the two runs differ; only where a predicate is applied they are known to be the same.
  induction p generalizing node node' host trail with
  | descend segment project shape next ih =>
    have hfollow : document.follow (segment :: trail) = node'.lookup segment := by
      rw [Value.follow, hnode, Option.bind_some]
    rw [accesses] at hholds
    rw [accesses, accesses]
    rcases hl : node.find segment with fault | _ | part
    · have hmissed := hholds (.missed trail segment) (by rw [hl]; exact Findings.mem_append_left List.mem_cons_self)
      obtain ⟨-, hlong⟩ := Value.find_eq_error_iff.1 hl
      rw [Value.find_eq_error_iff.2 ⟨hfollow.symm.trans hmissed, hlong⟩]
    · have hmissed := hholds (.missed trail segment) (by rw [hl]; exact List.mem_singleton.2 rfl)
      obtain ⟨-, hshort⟩ := Value.find_eq_none_iff.1 hl
      rw [Value.find_eq_none_iff.2 ⟨hfollow.symm.trans hmissed, hshort⟩]
    · simp only [hl] at hholds
      obtain ⟨part', hpart'⟩ := hholds (.reached (segment :: trail)) List.mem_cons_self
      rw [Value.find_eq_some_iff.2 (hfollow.symm.trans hpart')]
      cases hv : projected (Trail.label root (segment :: trail)) project shape host with
      | error fault => rfl
      | ok v => cases hn : next v with
        | error fault => simp only [hn, accessesNext]
        | ok p =>
          simp only [hv, hn, accessesNext] at hholds
          simp only [hn, accessesNext]
          rw [ih v p hn hpart' fun a ha => hholds a (Findings.mem_append_right rfl ha)]
  | check predicate next ih =>
    rw [accesses] at hholds
    have hjudged := hholds (.judged trail node (predicate node)) (Findings.mem_append_left List.mem_cons_self)
    cases hnode.symm.trans (show document.follow trail = some node from hjudged)
    rfl
  | all members ih =>
    rw [accesses] at hholds
    rw [accesses, accesses]
    exact accessesAll_congr (fun p hp => ih p hp hnode) hholds
  | _ => rfl

end Runs

end Program

/-- A run looks only at what it addresses. On any other document with the same places to descend to, the same nodes
where predicates are applied, and nothing where nothing is found, it reports the same or raises the same. -/
theorem interpret_addressed (options : RunOptions) (program : Program) (host d₁ d₂ : Value) :
    let accesses := program.accesses options.rootLabel d₁ host []
    (takenFrames [⟨program, d₁, host, options.rootLabel⟩]).flatMap Frame.accesses =
      accesses.found.map (Access.labelled options.rootLabel) ∧
    interpret options program d₁ host = accesses.flatMap (fun a => (a.labelled options.rootLabel).report) ∧
    ((∀ trail, .reached trail ∈ accesses.found → ∃ node, d₂.follow trail = some node) →
      (∀ trail node verdict, .judged trail node verdict ∈ accesses.found → d₂.follow trail = some node) →
      (∀ trail segment, .missed trail segment ∈ accesses.found → d₂.follow (segment :: trail) = none) →
      program.accesses options.rootLabel d₂ host [] = accesses ∧
      interpret options program d₂ host = interpret options program d₁ host ∧
      (interpret options program d₂ host).messages options =
        (interpret options program d₁ host).messages options) := by
  intro accesses
  have hframes : (takenFrames [⟨program, d₁, host, options.rootLabel⟩]).flatMap Frame.accesses =
      (labelledAccesses options.rootLabel accesses ++ ⟨(takenFrames []).flatMap Frame.accesses, none⟩).found :=
    program.accesses_takenFrames d₁ host [] []
  rw [takenFrames, List.flatMap_nil] at hframes
  have hrun (d : Value) : interpret options program d host =
      (program.accesses options.rootLabel d host []).flatMap fun a => (a.labelled options.rootLabel).report := by
    rw [interpret_eq_walk]
    exact program.walk_eq_accesses d host []
  refine ⟨hframes.trans (congrArg Findings.found (Findings.append_empty _)), hrun d₁,
    fun hreached hjudged hmissed => ?_⟩
  have hsame : program.accesses options.rootLabel d₂ host [] = accesses := by
    have hroot : d₂.follow [] = some d₂ := rfl
    refine program.accesses_congr hroot fun a ha => ?_
    cases a with
    | reached trail => exact hreached trail ha
    | missed trail segment => exact hmissed trail segment ha
    | judged trail node verdict => exact hjudged trail node verdict ha
  have hreport : interpret options program d₂ host = interpret options program d₁ host := by
    rw [hrun d₂, hrun d₁, hsame]
  exact ⟨hsame, hreport, hreport ▸ rfl⟩

theorem interpret_addressed_reordered :
    let program : Program := .all [
      .descend (.key "name") .ok none fun _ => .ok (.require fun _ => .ok (some "refused")), .key "height"]
    let d₁ : Value := .object [("age", .int 36), ("name", .text "Ann")]
    let d₂ : Value := .object [("name", .text "Ann"), ("tags", .list [])]
    let accesses := program.accesses "subject" d₁ .null []
    ((∀ trail, .reached trail ∈ accesses.found → ∃ node, d₂.follow trail = some node) ∧
      (∀ trail node verdict, .judged trail node verdict ∈ accesses.found → d₂.follow trail = some node) ∧
      (∀ trail segment, .missed trail segment ∈ accesses.found → d₂.follow (segment :: trail) = none)) ∧
    interpret {} program d₂ .null = interpret {} program d₁ .null := by
  intro program d₁ d₂ accesses
  have hname₁ : d₁.find (.key "name") = .ok (some (.text "Ann")) :=
    Value.find_eq_some_iff.2 (Value.lookupKey_object _ "name")
  have hheight₁ : d₁.find (.key "height") = .ok none :=
    Value.find_eq_none_iff.2 ⟨Value.lookupKey_object _ "height", rfl⟩
  have hname₂ : d₂.follow [.key "name"] = some (.text "Ann") := Value.lookupKey_object _ "name"
  have hheight₂ : d₂.follow [.key "height"] = none := Value.lookupKey_object _ "height"
  have haccesses : accesses = ⟨[.reached [.key "name"], .judged [.key "name"] (.text "Ann") (.ok (some "refused")),
      .missed [] (.key "height")], none⟩ := by
    simp only [accesses, program, Program.accesses, Program.accessesAll, Program.key, hname₁, hheight₁]
    rfl
  have hreached : ∀ trail, .reached trail ∈ accesses.found → ∃ node, d₂.follow trail = some node := by
    simp [haccesses, hname₂]
  have hjudged : ∀ trail node verdict, .judged trail node verdict ∈ accesses.found →
      d₂.follow trail = some node := by
    simp only [haccesses, List.mem_cons, List.not_mem_nil, reduceCtorEq, Access.judged.injEq, false_or, or_false]
    rintro _ _ _ ⟨rfl, rfl, -⟩
    exact hname₂
  have hmissed : ∀ trail segment, .missed trail segment ∈ accesses.found →
      d₂.follow (segment :: trail) = none := by
    simp [haccesses, hheight₂]
  obtain ⟨-, -, haddressed⟩ := interpret_addressed {} program .null d₁ d₂
  obtain ⟨-, hsame, -⟩ := haddressed hreached hjudged hmissed
  exact ⟨⟨hreached, hjudged, hmissed⟩, hsame⟩

end Lockstep
