import Mathlib.Data.List.Induction
import Lockstep.Proofs.GoldenDocuments

/-! How a command line ends. Loading, encoding and running give either the messages of all failures or one fault,
which may come up at any stage, and this answer alone decides the exit status and what is printed. -/

namespace Lockstep.Command

/-- Lines as they are printed, each with a line break behind it. -/
def printed : List String → String
  | [] => ""
  | line :: lines => line ++ "\n" ++ printed lines

/-- The five kinds of faults that are told to the user of a command, and what is told of each. -/
inductive Told : Fault → String → Prop where
  | referenceNotProgram (reference type : String) :
      Told (.referenceNotProgram reference type) (reference ++ " is not a program, got " ++ type)
  | document (path : String) (cause : DocumentFault) : Told (.document path cause) (cause.message path)
  | unencodable (host part : String) : Told (.unencodable host part)
      ("Unable to encode " ++ host ++ " value as JSON: Unable to serialize unknown type: <class '" ++ part ++ "'>")
  | loading (cause : ModuleFault) : Told (.loading cause) cause.message
  | shapeMismatch (path produced expected : String) : Told (.shapeMismatch path produced expected)
      (path ++ ": projection produced " ++ produced ++ ", expected " ++ expected)

namespace Settings

/-- The choices about labels that settings make. -/
abbrev labels (s : Settings) : RunOptions := { rootLabel := s.rootLabel, indexInFailures := s.indexInFailures }

theorem options_eq (s : Settings) : s.options = s.labels := rfl

/-- The failures that a complete run finds: of the stored document if one is named, otherwise of the fresh encoding
of the host value. -/
inductive Finds (s : Settings) (tree : FileTree) (failures : List String) : Prop where
  | stored {program : Program} {host d : Value} {document : String} (names : s.Names tree program host)
      (hd : s.document = some document) (hload : loadDocument tree (.ofText document) = .ok d)
      (h : (interpret s.labels program d host).messages s.labels = .ok failures)
  | fresh {program : Program} {host : Value} {report : Report} (names : s.Names tree program host)
      (hd : s.document = none) (htest : runTest program host Value.encode s.labels = .ok report)
      (h : report.messages s.labels = .ok failures)

/-- Where a fault can come up. At the last two of these places some failures may have been found already. -/
inductive Raises (s : Settings) (tree : FileTree) (fault : Fault) : Prop where
  | program {reference : String} (hp : s.program = some reference)
      (h : ((loadAttribute tree reference).run .start).1 = .error fault)
  | notProgram {reference : String} {v : Value} (hp : s.program = some reference)
      (h : ((loadAttribute tree reference).run .start).1 = .ok (.value v))
      (hfault : fault = .referenceNotProgram reference v.typeName)
  | host {reference reference' : String} {program : Program} {state : LoadState}
      (hp : s.program = some reference) (hh : s.host = some reference')
      (hprogram : (loadAttribute tree reference).run .start = (.ok (.program program), state))
      (h : ((loadAttribute tree reference').run state).1 = .error fault)
  | document {program : Program} {host : Value} {document : String} (names : s.Names tree program host)
      (hd : s.document = some document) (h : loadDocument tree (.ofText document) = .error fault)
  | encoding {program : Program} {host : Value} (names : s.Names tree program host) (hd : s.document = none)
      (h : host.encode = .error fault)
  | stored {program : Program} {host d : Value} {document : String} (names : s.Names tree program host)
      (hd : s.document = some document) (hload : loadDocument tree (.ofText document) = .ok d)
      (h : (interpret s.labels program d host).fault? = some fault)
  | fresh {program : Program} {host d : Value} (names : s.Names tree program host) (hd : s.document = none)
      (hencode : host.encode = .ok d) (h : (interpret s.labels program d host).fault? = some fault)

/-- The report on what the settings name. -/
def report (s : Settings) (tree : FileTree) (program : Program) (host : Value) : Except Fault Report :=
  match s.document with
  | some document => (loadDocument tree (.ofText document)).map fun d => interpret s.labels program d host
  | none => runTest program host Value.encode s.labels

/-- What loading, encoding and running answer with: the messages of all failures, or the fault that came first. -/
def answer (s : Settings) (tree : FileTree) : Except Fault (List String) := do
  let (program, host) ← ((loadBoth tree (s.program.getD "") (s.host.getD "")).run .start).1
  let report ← s.report tree program host
  report.messages s.labels

end Settings

/-- How a command ends that has this answer. -/
def Ending.ofAnswer : Except Fault (List String) → Ending
  | .ok failures => .completed failures
  | .error fault => .ofFault fault

private theorem ending_outcomeOf (options : RunOptions) (log : List LogLine) (r : Report) :
    (outcomeOf options log r).ending = .ofAnswer (r.messages options) := by
  obtain ⟨found, _ | fault⟩ := r <;> rfl

private theorem ending_runSettings (tree : FileTree) (s : Settings) :
    (runSettings tree s).ending = .ofAnswer (s.answer tree) := by
  rw [runSettings, Settings.answer, s.options_eq]
  cases ((loadBoth tree (s.program.getD "") (s.host.getD "")).run .start).1 with
  | error fault => rfl
  | ok named =>
    obtain ⟨program, host⟩ := named
    simp only [Settings.report, Bind.bind, Except.bind]
    cases s.document with
    | none =>
      simp only [checkEncoding]
      cases runTest program host Value.encode s.labels with
      | error fault => rfl
      | ok r => exact ending_outcomeOf ..
    | some document =>
      simp only [checkDocument]
      cases loadDocument tree (.ofText document) with
      | error fault => rfl
      | ok d => exact ending_outcomeOf ..

theorem Told.ending {fault : Fault} {text : String} (h : Told fault text) :
    Ending.ofFault fault = .refused text := by
  cases h <;> rfl

namespace Console
variable {console : Console} {before lines : List String} {line : String}

end Console

/-- Both attributes one after another: the program's reference, then its kind, then the host value's reference. -/
theorem loadBoth_run (tree : FileTree) (first second : String) (start : LoadState) :
    ((loadBoth tree first second).run start).1 = match (loadAttribute tree first).run start with
      | (.error fault, _) => .error fault
      | (.ok (.value v), _) => .error (.referenceNotProgram first v.typeName)
      | (.ok (.program program), state) =>
        ((loadAttribute tree second).run state).1.map fun host => (program, host.toValue) := by
  rw [loadBoth, run_bind]
  obtain ⟨_ | a, state⟩ := (loadAttribute tree first).run start
  · rfl
  · cases a with
    | value v => rfl
    | program program =>
      dsimp only
      rw [run_bind]
      obtain ⟨_ | host, state'⟩ := (loadAttribute tree second).run state <;> rfl

namespace Settings
variable {s : Settings} {tree : FileTree} {program : Program} {host : Value}

private theorem answer_of_names (h : s.Names tree program host) :
    s.answer tree = (s.report tree program host).bind (Report.messages s.labels) := by
  rw [answer, h]
  rfl

/-- What is loaded, if the settings do not name what they should: the fault that comes up. -/
theorem answer_of_error {fault : Fault}
    (h : ((loadBoth tree (s.program.getD "") (s.host.getD "")).run .start).1 = .error fault) :
    s.answer tree = .error fault := by
  rw [answer, h]
  rfl

private theorem report_stored {document : String} (hd : s.document = some document) :
    s.report tree program host =
      (loadDocument tree (.ofText document)).map fun d => interpret s.labels program d host := by
  rw [report, hd]

private theorem report_fresh (hd : s.document = none) :
    s.report tree program host = host.encode.map fun d => interpret s.labels program d host := by
  rw [report, hd]
  rfl

/-- A complete run is answered with what it finds. -/
theorem Finds.answer_eq {failures : List String} (h : s.Finds tree failures) : s.answer tree = .ok failures := by
  cases h with
  | stored names hd hload h => rw [answer_of_names names, report_stored hd, hload]; exact h
  | fresh names hd htest h => rw [answer_of_names names, report, hd]; dsimp only; rw [htest]; exact h

/-- A fault is the answer, wherever it comes up. -/
theorem Raises.answer_eq {fault : Fault} (h : s.Raises tree fault) : s.answer tree = .error fault := by
  cases h with
  | @program reference hp h =>
    refine answer_of_error ?_
    rw [loadBoth_run, hp, Option.getD_some]
    generalize (loadAttribute tree reference).run .start = r at h
    obtain ⟨_, state⟩ := r
    cases h
    rfl
  | @notProgram reference v hp h hfault =>
    refine answer_of_error ?_
    rw [loadBoth_run, hp, Option.getD_some, hfault]
    generalize (loadAttribute tree reference).run .start = r at h
    obtain ⟨_, state⟩ := r
    cases h
    rfl
  | host hp hh hprogram h =>
    refine answer_of_error ?_
    rw [loadBoth_run, hp, hh, Option.getD_some, Option.getD_some, hprogram]
    dsimp only
    rw [h]
    rfl
  | document names hd h => rw [answer_of_names names, report_stored hd, h]; rfl
  | encoding names hd h => rw [answer_of_names names, report_fresh hd, h]; rfl
  | stored names hd hload h =>
    rw [answer_of_names names, report_stored hd, hload]
    exact Report.messages_eq_error.2 h
  | fresh names hd hencode h =>
    rw [answer_of_names names, report_fresh hd, hencode]
    exact Report.messages_eq_error.2 h

end Settings

section Ends
variable {tree : FileTree} {args : List String} {s : Settings}

theorem ending_of_raises {fault : Fault} (hargs : readArguments args = .ok (.run s)) (h : s.Raises tree fault) :
    (run tree args).ending = .ofFault fault := by
  rw [ending_run hargs, ending_runSettings, h.answer_eq]
  rfl

end Ends

/-- The lines that are to be printed when these are the failures. -/
def linesOf (failures : List String) : List String :=
  if failures = [] then [] else failures ++ ["Failures: " ++ toString failures.length]

section Exits
variable {ending : Ending} {console : Console}

end Exits

end Lockstep.Command
