/-!
Paths of files: a root, if the path is absolute, and the names that lead from there.
-/

namespace Lockstep

structure Path where
  /-- Empty for a relative path. -/
  root : String
  parts : List String
  deriving DecidableEq

/-- The parts of a text between slashes. -/
def slashParts : List Char → List (List Char)
  | [] => [[]]
  | c :: rest =>
    if c = '/' then [] :: slashParts rest
    else match slashParts rest with
      | part :: parts => (c :: part) :: parts
      | [] => [[c]]

namespace Path

/-- Two slashes at the start are a root of their own; more of them are one. -/
def rootOf (cs : List Char) : String :=
  match cs.takeWhile (· = '/') with
  | [] => ""
  | [_, _] => "//"
  | _ => "/"

/-- Empty parts and single dots are dropped. -/
def ofText (s : String) : Path :=
  ⟨rootOf s.toList, ((slashParts s.toList).map String.ofList).filter fun part => part ≠ "" && part ≠ "."⟩

def text (p : Path) : String :=
  let s := p.root ++ "/".intercalate p.parts
  if s.isEmpty then "." else s

def name (p : Path) : String := p.parts.getLast?.getD ""

/-- The name up to its last dot and from there on. A dot at either end of the name does not count. -/
def splitName (name : String) : String × String :=
  let cs := name.toList
  let ending := (cs.reverse.takeWhile (· ≠ '.')).reverse
  let stem := cs.take (cs.length - (ending.length + 1))
  if ending.isEmpty || stem.isEmpty then (name, "")
  else (String.ofList stem, String.ofList ('.' :: ending))

def stem (p : Path) : String := (splitName p.name).1

def suffix (p : Path) : String := (splitName p.name).2

def child (p : Path) (name : String) : Path := { p with parts := p.parts ++ [name] }

def parent (p : Path) : Path := { p with parts := p.parts.dropLast }

/-- One name further; two dots lead back. -/
def step (p : Path) (name : String) : Path := if name = ".." then p.parent else p.child name

/-- The absolute path that names lead to from a working directory, whether the files exist or not. -/
def resolve (home p : Path) : Path :=
  p.parts.foldl step (if p.root.isEmpty then home else ⟨p.root, []⟩)

def isUsable (p : Path) : Bool := !p.text.toList.contains '\x00'

end Path

end Lockstep
