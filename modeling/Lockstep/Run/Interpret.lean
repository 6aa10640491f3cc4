import Lockstep.Run.Walk

/-!
Running a program with a stack of pending frames instead of recursion. Every step takes the top frame and
puts the frames that follow it in its place, and each of these holds a smaller program.
-/

namespace Lockstep

/-- A branch that is still to be run, with the state it starts from. -/
structure Frame where
  program : Program
  node : Value
  host : Value
  path : String

/-- What one step gives: the frames that follow, a failure that ends the branch, or a fault that ends the
run. -/
inductive Advance where
  | go (following : List Frame)
  | fail (failure : Failure)
  | raise (fault : Fault)

namespace Frame

def advance (frame : Frame) : Advance :=
  match frame.program with
  | .done _ => .go []
  | .terminate => .go []
  | .all members => .go (members.map fun member => { frame with program := member })
  | .descend segment project shape next => match frame.node.find segment with
    | .error fault => .raise fault
    | .ok none => .fail (.missing frame.path segment)
    | .ok (some part) =>
      match Program.projected (frame.path ++ segment.text) project shape frame.host with
      | .error fault => .raise fault
      | .ok v => match next v with
        | .error fault => .raise fault
        | .ok p => .go [⟨p, part, v, frame.path ++ segment.text⟩]
  | .check predicate next => match predicate frame.node with
    | .error fault => .raise fault
    | .ok (some message) => .fail (.rejected frame.path message)
    | .ok none => .go [{ frame with program := next }]
  | .blank => .raise (.unsupportedNode "Program")
  | .stray instruction => .raise (.unsupportedInstruction instruction.typeName)
  | .foreign v => .raise (.unsupportedNode v.typeName)

/-- The programs that can stand in the frames that follow a program. -/
inductive Follows : Program → Program → Prop where
  | next (segment : Segment) (project : Value → Except Fault Value) (shape : Option Shape)
      (next : Value → Except Fault Program) (host : Value) (p : Program) (h : next host = .ok p) :
      Follows p (.descend segment project shape next)
  | checked (predicate : Value → Except Fault (Option String)) (p : Program) : Follows p (.check predicate p)
  | member (p : Program) (members : List Program) (h : p ∈ members) : Follows p (.all members)

theorem acc_follows (p : Program) : Acc Follows p := by
  induction p with
  | descend segment project shape next ih =>
    exact ⟨_, fun q h => by cases h with | next _ _ _ _ host _ hq => exact ih host q hq⟩
  | check predicate next ih => exact ⟨_, fun q h => by cases h; exact ih⟩
  | all members ih => exact ⟨_, fun q h => by cases h with | member _ _ hq => exact ih q hq⟩
  | _ => exact ⟨_, fun q h => by cases h⟩

theorem follows_of_advance {frame : Frame} {following : List Frame} (h : frame.advance = .go following) :
    ∀ f ∈ following, Follows f.program frame.program := by
  intro f hf
  unfold advance at h
  split at h <;> rename_i hp
  · cases h; cases hf
  · cases h; cases hf
  · cases h
    obtain ⟨member, hm, rfl⟩ := List.mem_map.1 hf
    rw [hp]; exact .member _ _ hm
  · split at h
    · cases h
    · cases h
    · split at h
      · cases h
      · split at h
        · cases h
        · cases h
          rename_i hn
          rw [List.mem_singleton.1 hf, hp]; exact .next _ _ _ _ _ _ hn
  · split at h
    · cases h
    · cases h
    · cases h
      rw [List.mem_singleton.1 hf, hp]; exact .checked _ _
  all_goals cases h

end Frame

/-- The stack after one step, by the programs on it: the top one is replaced by programs that follow it. -/
inductive Residue : List Frame → List Frame → Prop where
  | replace (top : Frame) (following rest : List Frame)
      (h : ∀ f ∈ following, Frame.Follows f.program top.program) : Residue (following ++ rest) (top :: rest)

theorem acc_residue_append {rest : List Frame} (hr : Acc Residue rest) :
    ∀ following : List Frame,
      (∀ f ∈ following, ∀ rest, Acc Residue rest → Acc Residue (f :: rest)) → Acc Residue (following ++ rest)
  | [], _ => hr
  | f :: fs, h => h f (by simp) _ (acc_residue_append hr fs fun g hg => h g (by simp [hg]))

theorem acc_residue_cons {p : Program} (hp : Acc Frame.Follows p) :
    ∀ f : Frame, f.program = p → ∀ rest, Acc Residue rest → Acc Residue (f :: rest) := by
  induction hp with
  | intro p _ ih =>
    intro f hf rest hr
    refine ⟨_, fun stack h => ?_⟩
    cases h with
    | replace _ following _ h =>
      exact acc_residue_append hr following fun g hg => ih g.program (hf ▸ h g hg) g rfl

theorem acc_residue : ∀ stack : List Frame, Acc Residue stack
  | [] => ⟨_, fun _ h => by cases h⟩
  | f :: rest => acc_residue_cons (Frame.acc_follows f.program) f rfl rest (acc_residue rest)

instance : WellFoundedRelation (List Frame) := ⟨Residue, ⟨acc_residue⟩⟩

/-- Puts frames on the stack in reverse, which leaves the first of them on top. -/
def pushFrames (following pending : List Frame) : List Frame :=
  following.reverse.foldl (fun stack frame => frame :: stack) pending

theorem pushFrames_eq_append (following pending : List Frame) :
    pushFrames following pending = following ++ pending := by
  rw [pushFrames, List.foldl_flip_cons_eq_append', List.reverse_reverse]

/-- Runs pending frames until none is left. The failures found so far come with the last one first. -/
def runFrames (pending : List Frame) (found : List Failure) : Report :=
  match pending with
  | [] => ⟨found.reverse, none⟩
  | frame :: rest => match _h : frame.advance with
    | .go following => runFrames (pushFrames following rest) found
    | .fail failure => runFrames rest (failure :: found)
    | .raise fault => ⟨found.reverse, some fault⟩
termination_by pending
decreasing_by
  · rw [pushFrames_eq_append]; exact .replace _ _ _ (Frame.follows_of_advance _h)
  · exact .replace _ [] _ (by simp)

/-- Walks a document and its host value with a program. -/
def interpret (options : RunOptions) (program : Program) (document host : Value) : Report :=
  runFrames [⟨program, document, host, options.rootLabel⟩] []

end Lockstep
