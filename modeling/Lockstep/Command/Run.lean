import Lockstep.Command.Arguments
import Lockstep.Document
import Lockstep.Loading
import Lockstep.Run.Check

/-!
Running a command line: load a program and a host value, check a stored document or a fresh encoding, and
say how it ended. What is printed is known only when the run is complete, and the console may still refuse it.
-/

namespace Lockstep.Command

/-- What happens during a run, for those who asked to see it. -/
inductive LogLine where
  | loaded (path : String)
  | failure (text : String)
  | encoded (type : String)
  deriving DecidableEq

def LogLine.text : LogLine → String
  | .loaded path => "DEBUG json_assertions.loader: Loaded document " ++ path
  | .failure text => "DEBUG json_assertions.interpreter: JSON assertion failure: " ++ text
  | .encoded type => "DEBUG json_assertions.interpreter: Running JSON program against encoded " ++ type

/-- How a command line ends. -/
inductive Ending where
  | help
  /-- The run is complete, with these failure messages. -/
  | completed (failures : List String)
  /-- The run did not come about or was given up, for a reason that is told. -/
  | refused (message : String)
  /-- A fault that is not expected of a run leaves the command. -/
  | escaped (fault : Fault)

/-- Where lines are printed. A line may be refused for what it holds, or for what has been printed before it. -/
abbrev Console := List String → String → Option Fault

namespace Console

/-- Prints lines behind others, up to the first one that is refused. -/
def print (console : Console) (before : List String) : List String → Findings String
  | [] => .empty
  | line :: lines => match console before line with
    | some fault => .raised fault
    | none => .single line ++ console.print (before ++ [line]) lines

end Console

/-- What comes of a command line: what it prints, what it tells of why it did not run, and its exit status, unless
a fault leaves it. -/
structure Exit where
  printed : List String
  told : Option String
  status : Except Fault Nat

/-- What stands on standard output. -/
def Exit.output (e : Exit) : String := e.printed.foldr (fun line rest => line ++ "\n" ++ rest) ""

namespace Ending

/-- The exit status, if nothing goes wrong in printing. -/
def status : Ending → Except Fault Nat
  | .help => .ok 0
  | .completed failures => .ok (if failures.isEmpty then 0 else 1)
  | .refused _ => .ok 2
  | .escaped fault => .error fault

/-- What is to be printed about a run: its failures and their number, if there are any. -/
def lines : Ending → List String
  | .completed failures =>
    if failures.isEmpty then [] else failures ++ ["Failures: " ++ toString failures.length]
  | _ => []

def told : Ending → Option String
  | .refused message => some message
  | _ => none

/-- Prints about a run and leaves the command. -/
def exit (ending : Ending) (console : Console) : Exit :=
  let output := console.print [] ending.lines
  ⟨output.found, ending.told, match output.fault? with
    | some fault => .error fault
    | none => ending.status⟩

end Ending

/-- The faults that a command reports to its user. -/
def isReported : Fault → Bool
  | .referenceNotProgram .. => true
  | .document .. => true
  | .unencodable .. => true
  | .loading _ => true
  | .shapeMismatch .. => true
  | _ => false

/-- How a run ends that raised a fault. -/
def Ending.ofFault (fault : Fault) : Ending :=
  match isReported fault, fault.message? with
  | true, some message => .refused message
  | _, _ => .escaped fault

structure Outcome where
  ending : Ending
  log : List LogLine

/-- The program and the host value that the settings name; the files of both are executed once. -/
def loadBoth (tree : FileTree) (program host : String) : Load (Program × Value) := do
  match ← loadAttribute tree program with
  | .value v => throw (.referenceNotProgram program v.typeName)
  | .program p => do
    let host ← loadAttribute tree host
    pure (p, host.toValue)

def Settings.options (s : Settings) : RunOptions := ⟨s.rootLabel, s.indexInFailures⟩

/-- The outcome of a run that came as far as checking, after some log lines. -/
def outcomeOf (options : RunOptions) (log : List LogLine) (r : Report) : Outcome :=
  let texts := r.found.map fun f => f.text options
  ⟨match r.outcome with
    | .ok _ => .completed texts
    | .error fault => .ofFault fault,
  log ++ texts.map .failure⟩

/-- Checks a program against a stored document. -/
def checkDocument (tree : FileTree) (options : RunOptions) (program : Program) (host : Value)
    (document : String) : Outcome :=
  let p := Path.ofText document
  match loadDocument tree p with
  | .error fault => ⟨.ofFault fault, []⟩
  | .ok d => outcomeOf options [.loaded p.text] (interpret options program d host)

/-- Checks a program against the encoding of its host value. -/
def checkEncoding (options : RunOptions) (program : Program) (host : Value) : Outcome :=
  match runTest program host Value.encode options with
  | .error fault => ⟨.ofFault fault, []⟩
  | .ok r => outcomeOf options [.encoded host.typeName] r

/-- Runs with the given settings. -/
def runSettings (tree : FileTree) (s : Settings) : Outcome :=
  match ((loadBoth tree (s.program.getD "") (s.host.getD "")).run .start).1 with
  | .error fault => ⟨.ofFault fault, []⟩
  | .ok (program, host) => match s.document with
    | some document => checkDocument tree s.options program host document
    | none => checkEncoding s.options program host

/-- Runs a command line in a tree of files. The log is kept only if it was asked for. -/
def run (tree : FileTree) (args : List String) : Outcome :=
  match readArguments args with
  | .error e => ⟨.refused e.message, []⟩
  | .ok .help => ⟨.help, []⟩
  | .ok (.run s) =>
    let outcome := runSettings tree s
    if s.verbose then outcome else { outcome with log := [] }

/-- What comes of a command line before a console. -/
def exit (tree : FileTree) (console : Console) (args : List String) : Exit := (run tree args).ending.exit console

end Lockstep.Command
