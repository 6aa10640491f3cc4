import Lockstep.Files.Path

/-!
Trees of files and directories, seen from a working directory.
-/

namespace Lockstep

inductive Entry where
  | directory
  | file (content : List UInt8)
  deriving DecidableEq

/-- Entries by their resolved paths. The directories around an entry exist without being listed. -/
structure FileTree where
  home : Path
  entries : List (Path × Entry)
  /-- What the system or the reader of a format says about a file that it does not take. -/
  complaint : Path → String := fun _ => ""

namespace FileTree

/-- Whether the first path leads towards the second. -/
def isAbove (p q : Path) : Bool := p.root = q.root && p.parts.isPrefixOf q.parts

def isDirectory (tree : FileTree) (p : Path) : Bool :=
  p.parts.isEmpty || isAbove p tree.home || tree.entries.any fun (q, entry) =>
    isAbove p q && (p ≠ q || entry = .directory)

/-- What is at a resolved path. -/
def entry? (tree : FileTree) (p : Path) : Option Entry :=
  if tree.isDirectory p then some .directory else tree.entries.lookup p

/-- What opening a path finds. Unlike resolving it, this needs every part but the last to be a directory,
even one that two dots lead back from. -/
def open? (tree : FileTree) (p : Path) : Option Entry := do
  let start := if p.root.isEmpty then tree.home else ⟨p.root, []⟩
  let found ← p.parts.foldlM (fun q name => if tree.isDirectory q then some (q.step name) else none) start
  tree.entry? found

end FileTree

end Lockstep
