import Lockstep.Program.Basic

/-!
The outline of a program: its structure for one host value, with no document. Every descent is taken as
matched and shapes are not checked, so an outline shows what a run could do.
-/

namespace Lockstep

inductive Outline where
  | done (result : Value)
  /-- A descent, with the projected host value if the projection fits. -/
  | descend (segment : Segment) (shape : Option String) (host : Option Value) (next : Outline)
  | check (next : Outline)
  | terminate
  | all (members : List Outline)
  | blank
  | stray (type : String)
  | foreign (v : Value)
  | raised (fault : Fault)

namespace Program

mutual

def outline (host : Value) : Program → Outline
  | .done result => .done result
  | .descend segment project shape next => match project host with
    | .ok projected =>
      .descend segment (shape.map (·.name)) (some projected) (outlineNext projected (next projected))
    | .error fault => .descend segment (shape.map (·.name)) none (.raised fault)
  | .check _ next => .check (outline host next)
  | .terminate => .terminate
  | .all members => .all (outlineAll host members)
  | .blank => .blank
  | .stray instruction => .stray instruction.typeName
  | .foreign v => .foreign v

def outlineNext (host : Value) : Except Fault Program → Outline
  | .ok p => outline host p
  | .error fault => .raised fault

def outlineAll (host : Value) : List Program → List Outline
  | [] => []
  | p :: ps => outline host p :: outlineAll host ps

end

end Program

end Lockstep
