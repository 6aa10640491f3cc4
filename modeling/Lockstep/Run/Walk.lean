import Lockstep.Program.Basic
import Lockstep.Run.Report

/-!
The meaning of a program on a document and a host value, by recursion on the program. Members of a
combination are run in order from the same state, and a branch ends at its first failure.
-/

namespace Lockstep

namespace Program

/-- The host value for a matched part: projected, and of the declared shape if there is one. -/
def projected (path : String) (project : Value → Except Fault Value) (shape : Option Shape)
    (host : Value) : Except Fault Value := do
  let v ← project host
  match shape with
  | some shape =>
    if ← shape.test v then pure v
    else throw (.shapeMismatch path v.typeName shape.name)
  | none => pure v

mutual

/-- Runs a program from a node, the host value that corresponds to it, and the path of the node. -/
def walk (node host : Value) (path : String) : Program → Report
  | .done _ => .empty
  | .descend segment project shape next => match node.find segment with
    | .error fault => .raised fault
    | .ok none => .single (.missing path segment)
    | .ok (some part) => match projected (path ++ segment.text) project shape host with
      | .error fault => .raised fault
      | .ok v => walkNext part v (path ++ segment.text) (next v)
  | .check predicate next => match predicate node with
    | .error fault => .raised fault
    | .ok (some message) => .single (.rejected path message)
    | .ok none => walk node host path next
  | .terminate => .empty
  | .all members => walkAll node host path members
  | .blank => .raised (.unsupportedNode "Program")
  | .stray instruction => .raised (.unsupportedInstruction instruction.typeName)
  | .foreign v => .raised (.unsupportedNode v.typeName)

def walkNext (node host : Value) (path : String) : Except Fault Program → Report
  | .ok p => walk node host path p
  | .error fault => .raised fault

def walkAll (node host : Value) (path : String) : List Program → Report
  | [] => .empty
  | p :: ps => walk node host path p ++ walkAll node host path ps

end

theorem walkAll_eq_concat (node host : Value) (path : String) (ps : List Program) :
    walkAll node host path ps = .concat (ps.map (walk node host path)) := by
  induction ps with
  | nil => rfl
  | cons p ps ih => rw [walkAll, ih, List.map_cons, Findings.concat_cons]

end Program

end Lockstep
