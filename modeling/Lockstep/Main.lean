import Lockstep.Command.Run

/-!
The command line. It reads the files that the arguments name, runs on what it has read, and prints.
-/

namespace Lockstep

/-- The content of the file at a path, if it can be read. -/
def readFile? (path : String) : IO (Option (List UInt8)) := do
  try
    let data ← IO.FS.readBinFile path
    pure (some data.toList)
  catch _ => pure none

/-- The directories passed on the way along a path, and the file at its end. -/
def entriesAlong (home p : Path) (content : List UInt8) : List (Path × Entry) :=
  let along := (List.range p.parts.length).map fun n => Path.resolve home { p with parts := p.parts.take n }
  along.map (·, Entry.directory) ++ [(Path.resolve home p, .file content)]

/-- What can be found at a path as it is opened. -/
def entriesAt (home p : Path) : IO (List (Path × Entry)) := do
  match ← readFile? p.text with
  | some content => pure (entriesAlong home p content)
  | none => pure []

/-- The path of the module in a reference, resolved. -/
def modulePath? (home : Path) (reference : String) : Option Path :=
  (splitReference reference).map fun (path, _) => Path.resolve home (.ofText path)

/-- The files that the settings name. -/
def treeFor (home : Path) (s : Command.Settings) : IO FileTree := do
  let modules := (s.program.toList ++ s.host.toList).filterMap (modulePath? home)
  let documents := s.document.toList.map Path.ofText
  let entries ← (modules ++ documents).mapM (entriesAt home)
  pure { home := home, entries := entries.flatten }

/-- Prints how a command ended and gives its exit status. -/
def printEnding (ending : Command.Ending) : IO UInt32 := do
  for line in ending.lines do
    IO.println line
  match ending with
  | .help => IO.println ("usage: json-assertions " ++ " ".intercalate (Command.spellings.map (·.1)))
  | .refused message => IO.eprintln ("json-assertions: error: " ++ message)
  | .escaped fault => IO.eprintln (fault.message?.getD "internal error")
  | .completed _ => pure ()
  match ending.status with
  | .ok status => pure (UInt32.ofNat status)
  | .error _ => pure 1

end Lockstep

open Lockstep in
def main (args : List String) : IO UInt32 := do
  let home := Path.ofText (toString (← IO.currentDir))
  let tree ← match Command.readArguments args with
    | .ok (.run s) => treeFor home s
    | _ => pure { home := home, entries := [] }
  let outcome := Command.run tree args
  for line in outcome.log do
    IO.eprintln line.text
  printEnding outcome.ending
