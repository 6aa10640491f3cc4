import Lockstep.Proofs.FrameTrails

/-! What the options of a run can change. The label of the root stands in front of every path and nothing else
depends on it, so runs under two labels stay side by side. Naming missing positions changes the texts of failed
array lookups, and no run. -/

namespace Lockstep

/-- A failure with a label in front of its path. -/
def Failure.below (root : String) : Failure → Failure
  | .missing path segment => .missing (root ++ path) segment
  | .rejected path message => .rejected (root ++ path) message

/-- The same fault of two runs below two labels. Only a mismatched shape is told with its place. -/
inductive Fault.Relabelled (a b : String) : Fault → Fault → Prop where
  | same (fault : Fault) : Relabelled a b fault fault
  | shapeMismatch (path produced expected : String) :
      Relabelled a b (.shapeMismatch (a ++ path) produced expected) (.shapeMismatch (b ++ path) produced expected)

/-- Two reports of the same failures below two labels, with the same fault at the end or none. -/
structure Report.Relabelled (a b : String) (r s : Report) : Prop where
  found : ∃ failures : List Failure, r.found = failures.map (.below a) ∧ s.found = failures.map (.below b)
  fault? : Option.Rel (Fault.Relabelled a b) r.fault? s.fault?

theorem Failure.text_below (root : String) (options : RunOptions) (f : Failure) :
    (f.below root).text options = root ++ f.text options := by
  have hlabel : (f.below root).label options = root ++ f.label options := by
    cases f with
    | missing path segment => cases segment with
      | key name => exact String.append_assoc ..
      | index position =>
        simp only [below, label]
        split
        · exact String.append_assoc ..
        · rfl
    | rejected path message => rfl
  have hreason : (f.below root).reason = f.reason := by cases f <;> rfl
  rw [text, hlabel, hreason, String.append_assoc]
  rfl

/-- The messages of a fault below two labels differ in the label at most. -/
theorem Fault.Relabelled.message? {a b : String} {f g : Fault} (h : f.Relabelled a b g) :
    f = g ∨ ∃ rest, f.message? = some (a ++ rest) ∧ g.message? = some (b ++ rest) := by
  cases h with
  | same => exact .inl rfl
  | shapeMismatch path produced expected =>
    refine .inr ⟨path ++ ": projection produced " ++ produced ++ ", expected " ++ expected, ?_, ?_⟩ <;>
      simp only [Fault.message?, String.append_assoc]

namespace Report.Relabelled
variable {a b : String} {r s t u : Report}

theorem empty : Relabelled a b .empty .empty := ⟨⟨[], rfl, rfl⟩, .none⟩

theorem single (f : Failure) : Relabelled a b (.single (f.below a)) (.single (f.below b)) :=
  ⟨⟨[f], rfl, rfl⟩, .none⟩

theorem raised {f g : Fault} (h : f.Relabelled a b g) : Relabelled a b (.raised f) (.raised g) :=
  ⟨⟨[], rfl, rfl⟩, .some h⟩

theorem append (hrs : Relabelled a b r s) (htu : Relabelled a b t u) :
    Relabelled a b (r ++ t : Report) (s ++ u : Report) := by
  obtain ⟨_, _⟩ := r
  obtain ⟨_, _⟩ := s
  obtain ⟨⟨fs, rfl, rfl⟩, hfault⟩ := hrs
  cases hfault with
  | some h => exact ⟨⟨fs, rfl, rfl⟩, .some h⟩
  | none =>
    obtain ⟨⟨gs, ht, hu⟩, hfault⟩ := htu
    refine ⟨⟨fs ++ gs, ?_, ?_⟩, hfault⟩ <;> rw [List.map_append]
    · rw [← ht]; rfl
    · rw [← hu]; rfl

/-- What two runs answer that report the same below two labels. -/
theorem messages (h : Relabelled a b r s) (named : Bool) :
    (∃ f g, r.messages ⟨a, named⟩ = .error f ∧ s.messages ⟨b, named⟩ = .error g ∧ f.Relabelled a b g) ∨
    ∃ texts : List String, r.messages ⟨a, named⟩ = .ok (texts.map (a ++ ·)) ∧
      s.messages ⟨b, named⟩ = .ok (texts.map (b ++ ·)) := by
  obtain ⟨⟨failures, hr, hs⟩, hfault⟩ := h
  generalize hf : r.fault? = f? at hfault
  generalize hg : s.fault? = g? at hfault
  cases hfault with
  | some h => exact .inl ⟨_, _, messages_eq_error.2 hf, messages_eq_error.2 hg, h⟩
  | none =>
    -- Behind the label in front of it, the text of a failure is the same below every label.
    have htexts (root : String) : (failures.map (Failure.text ⟨"", named⟩)).map (root ++ ·) =
        (failures.map (Failure.below root)).map (Failure.text ⟨root, named⟩) := by
      rw [List.map_map, List.map_map]
      exact List.map_congr_left fun f _ => (f.text_below root ⟨root, named⟩).symm
    refine .inr ⟨failures.map (Failure.text ⟨"", named⟩), messages_eq_ok.2 ⟨hf, ?_⟩, messages_eq_ok.2 ⟨hg, ?_⟩⟩
    · rw [hr, htexts]
    · rw [hs, htexts]

end Report.Relabelled

namespace Program
variable {a b : String}

/-- A projection goes on with the same value below any label, or raises the same. -/
theorem projected_relabelled (path : String) (project : Value → Except Fault Value) (shape : Option Shape)
    (host : Value) :
    (∃ v, projected (a ++ path) project shape host = .ok v ∧ projected (b ++ path) project shape host = .ok v) ∨
    ∃ f g, projected (a ++ path) project shape host = .error f ∧
      projected (b ++ path) project shape host = .error g ∧ f.Relabelled a b g := by
  rcases projected_cases project shape host with
    ⟨fault, hv⟩ | ⟨v, declared, fault, hv, rfl, ht⟩ | ⟨v, declared, hv, rfl, ht⟩ | ⟨v, hv, ht⟩
  · exact .inr ⟨fault, fault, projected_of_error hv, projected_of_error hv, .same fault⟩
  · exact .inr ⟨fault, fault, projected_of_untested hv ht, projected_of_untested hv ht, .same fault⟩
  · exact .inr ⟨_, _, projected_of_misfit hv ht, projected_of_misfit hv ht,
      .shapeMismatch path v.typeName declared.name⟩
  · exact .inl ⟨v, projected_of_fits hv ht, projected_of_fits hv ht⟩

theorem walkAll_relabelled {ps : List Program} {node host : Value} {path : String}
    (h : ∀ p ∈ ps, Report.Relabelled a b (walk node host (a ++ path) p) (walk node host (b ++ path) p)) :
    Report.Relabelled a b (walkAll node host (a ++ path) ps) (walkAll node host (b ++ path) ps) := by
  induction ps with
  | nil => exact .empty
  | cons p ps ih =>
    obtain ⟨hp, hps⟩ := List.forall_mem_cons.1 h
    exact hp.append (ih hps)

/-- Runs from the same state below two labels report the same below them. -/
theorem walk_relabelled (p : Program) (node host : Value) (path : String) :
    Report.Relabelled a b (walk node host (a ++ path) p) (walk node host (b ++ path) p) := by
  induction p generalizing node host path with
  | descend segment project shape next ih =>
    rw [walk, walk]
    rcases node.find segment with fault | _ | part
    · exact .raised (.same fault)
    · exact .single (.missing path segment)
    · simp only [String.append_assoc]
      rcases projected_relabelled (a := a) (b := b) (path ++ segment.text) project shape host with
        ⟨v, ha, hb⟩ | ⟨f, g, ha, hb, hfg⟩
      · simp only [ha, hb]
        cases hn : next v with
        | error fault => exact .raised (.same fault)
        | ok p => exact ih v p hn part v _
      · simp only [ha, hb]
        exact .raised hfg
  | check predicate next ih =>
    rw [walk, walk]
    cases predicate node with
    | error fault => exact .raised (.same fault)
    | ok verdict => cases verdict with
      | none => exact ih node host path
      | some message => exact .single (.rejected path message)
  | all members ih =>
    rw [walk, walk]
    exact walkAll_relabelled fun p hp => ih p hp node host path
  | done result => exact .empty
  | terminate => exact .empty
  | _ => exact .raised (.same _)

end Program

/-- What naming missing positions makes of the text of a failure. -/
theorem Frame.text_of_failure {frame : Frame} {failure : Failure} (h : frame.failure? = some failure)
    (root : String) :
    (∃ position project shape next, frame.program = .descend (.index position) project shape next ∧
      frame.node.lookupIndex position = none ∧
      failure.text ⟨root, false⟩ = frame.path ++ " failed to match any targets" ∧
      failure.text ⟨root, true⟩ = frame.path ++ "[" ++ toString position ++ "]" ++ " failed to match any targets") ∨
    (∀ position project shape next, frame.program ≠ .descend (.index position) project shape next) ∧
      failure.text ⟨root, true⟩ = failure.text ⟨root, false⟩ := by
  rcases fail_cases h with ⟨predicate, next, message, hp, -, rfl⟩ | ⟨segment, project, shape, next, hp, hl, rfl⟩
  · exact .inr ⟨by rw [hp]; nofun, rfl⟩
  · cases segment with
    | key name => exact .inr ⟨by rw [hp]; nofun, rfl⟩
    | index position =>
      refine .inl ⟨position, project, shape, next, hp, hl, rfl, ?_⟩
      rw [Program.text_missing, Program.missMessage]
      simp only [if_true, String.append_assoc]

/-- Options relabel what a run reports, and do not change what is checked. Below two labels it answers with the same
texts behind the two labels, and whether missing positions are named or not, only the labels of missing positions
differ; faults are the same but for the label. -/
theorem messages_relabelled (program : Program) (document host : Value) :
    (∀ (a b : String) (named : Bool),
      let first := (interpret ⟨a, named⟩ program document host).messages ⟨a, named⟩
      let second := (interpret ⟨b, named⟩ program document host).messages ⟨b, named⟩
      (∃ f g, first = .error f ∧ second = .error g ∧ f.Relabelled a b g ∧
        (f = g ∨ ∃ rest, f.message? = some (a ++ rest) ∧ g.message? = some (b ++ rest))) ∨
      ∃ texts : List String, first = .ok (texts.map (a ++ ·)) ∧ second = .ok (texts.map (b ++ ·))) ∧
    ∀ root : String,
      let frames := takenFrames [⟨program, document, host, root⟩]
      let brief := (interpret ⟨root, false⟩ program document host).messages ⟨root, false⟩
      let named := (interpret ⟨root, true⟩ program document host).messages ⟨root, true⟩
      (∃ fault, brief = .error fault ∧ named = .error fault) ∨
      ∃ failures : List Failure, failures = frames.filterMap Frame.failure? ∧
        brief = .ok (failures.map (Failure.text ⟨root, false⟩)) ∧
        named = .ok (failures.map (Failure.text ⟨root, true⟩)) ∧
        ∀ frame ∈ frames, ∀ failure, frame.failure? = some failure →
          (∃ position project shape next, frame.program = .descend (.index position) project shape next ∧
            frame.node.lookupIndex position = none ∧
            failure.text ⟨root, false⟩ = frame.path ++ " failed to match any targets" ∧
            failure.text ⟨root, true⟩ =
              frame.path ++ "[" ++ toString position ++ "]" ++ " failed to match any targets") ∨
          (∀ position project shape next, frame.program ≠ .descend (.index position) project shape next) ∧
            failure.text ⟨root, true⟩ = failure.text ⟨root, false⟩ := by
  refine ⟨fun a b named => ?_, fun root => ?_⟩
  · intro first second
    have hrun : Report.Relabelled a b (interpret ⟨a, named⟩ program document host)
        (interpret ⟨b, named⟩ program document host) := by
      rw [interpret_eq_walk, interpret_eq_walk]
      simpa using program.walk_relabelled (a := a) (b := b) document host ""
    rcases hrun.messages named with ⟨f, g, hf, hg, h⟩ | htexts
    · exact .inl ⟨f, g, hf, hg, h, h.message?⟩
    · exact .inr htexts
  · intro frames brief named
    have hfound : (interpret ⟨root, false⟩ program document host).found = frames.filterMap Frame.failure? :=
      found_runFrames _ []
    cases hfault : (interpret ⟨root, false⟩ program document host).fault? with
    | some fault => exact .inl ⟨fault, Report.messages_eq_error.2 hfault, Report.messages_eq_error.2 hfault⟩
    | none =>
      refine .inr ⟨_, hfound, Report.messages_eq_ok.2 ⟨hfault, rfl⟩, Report.messages_eq_ok.2 ⟨hfault, rfl⟩, ?_⟩
      exact fun frame _ failure h => frame.text_of_failure h root

end Lockstep
