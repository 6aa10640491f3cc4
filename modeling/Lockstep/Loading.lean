import Lockstep.Files.Tree
import Lockstep.Script.Module

/-!
Loading attributes of modules by references such as `checks.py:NAME`. Every execution of a file has a name
of its own, under which the module is registered unless it raises. Loads that share a mapping execute a
file only once.
-/

namespace Lockstep

structure Module where
  name : String
  attributes : List (String × Attribute)

structure LoadState where
  /-- The number in the name of the next module. -/
  counter : Nat
  /-- How many executions have been started. -/
  started : Nat
  registered : Registry
  /-- The modules that later loads find again, by resolved path. -/
  loaded : List (Path × Module)

namespace LoadState

def start : LoadState := ⟨1, 0, [], []⟩

end LoadState

/-- Loads that may raise; what happened before stays. -/
abbrev Load := ExceptT Fault (StateM LoadState)

/-- The path and the name in a reference, which its last colon separates. -/
def splitReference (reference : String) : Option (String × String) :=
  let cs := reference.toList
  let name := (cs.reverse.takeWhile (· ≠ ':')).reverse
  let path := cs.take (cs.length - (name.length + 1))
  if name.length = cs.length || name.isEmpty || path.isEmpty then none
  else some (String.ofList path, String.ofList name)

/-- A name for a module: the stem of its file and a number that is never used twice. -/
def moduleName (p : Path) (number : Nat) : String :=
  "json_assertions_loaded_" ++ p.stem ++ "_" ++ toString number

/-- The source of a module at a resolved path. -/
def findSource (tree : FileTree) (p : Path) : Except Fault Script.Source :=
  match tree.entry? p with
  | some (.file data) =>
    if p.name.endsWith ".py" then
      match Notation.sourceOfBytes? data with
      | some source => .ok source
      | none => .error (.loading (.notImportable p.text))
    else .error (.loading (.notImportable p.text))
  | _ => .error (.loading (.notFound p.text))

/-- Executes a module under a name. The name is registered from the start, and taken away again if the module
raises. What else the module does to the registry stays. -/
def executeModule (name : String) (source : Script.Source) : Load Module := do
  modify fun s => { s with started := s.started + 1, registered := s.registered.add name }
  let (result, names) := source.execute (← get).registered
  modify fun s => { s with registered := names }
  match result with
  | .ok attributes => pure ⟨name, attributes⟩
  | .error fault =>
    modify fun s => { s with registered := s.registered.remove name }
    throw fault

/-- Imports the module at a resolved path under a name. -/
def importModule (tree : FileTree) (name : String) (p : Path) : Load Module :=
  match findSource tree p with
  | .error fault => throw fault
  | .ok source => executeModule name source

/-- The module at a resolved path, imported unless it is among those already loaded. -/
def loadModule (tree : FileTree) (p : Path) : Load Module := do
  match (← get).loaded.lookup p with
  | some m => pure m
  | none =>
    let number := (← get).counter
    modify fun s => { s with counter := number + 1 }
    let m ← importModule tree (moduleName p number) p
    modify fun s => { s with loaded := (p, m) :: s.loaded }
    pure m

/-- The resolved path and the name that a reference stands for. -/
def resolveReference (tree : FileTree) (reference : String) : Except Fault (Path × String) :=
  match splitReference reference with
  | none => .error (.loading (.badReference reference))
  | some (path, name) =>
    if (Path.ofText path).isUsable then .ok (Path.resolve tree.home (.ofText path), name)
    else .error .unusablePath

/-- The attribute of a module that was loaded from a path. -/
def Module.attribute (m : Module) (p : Path) (name : String) : Except Fault Attribute :=
  match m.attributes.lookup name with
  | some a => .ok a
  | none => .error (.loading (.missingAttribute p.text name))

/-- The attribute that a reference names. -/
def loadAttribute (tree : FileTree) (reference : String) : Load Attribute :=
  match resolveReference tree reference with
  | .error fault => throw fault
  | .ok (p, name) => do
    let m ← loadModule tree p
    match m.attribute p name with
    | .ok a => pure a
    | .error fault => throw fault

/-- A load with a mapping of its own, which is forgotten afterwards. -/
def alone {α : Type} (load : Load α) : Load α := do
  let loaded := (← get).loaded
  modify fun s => { s with loaded := [] }
  let result ← ExceptT.lift load.run
  modify fun s => { s with loaded := loaded }
  match result with
  | .ok a => pure a
  | .error fault => throw fault

end Lockstep
