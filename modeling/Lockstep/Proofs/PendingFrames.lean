import Lockstep.Run.Interpret

/-! The stack of pending frames against the recursion. At every moment the frames that are still to be
run owe, from the top downwards, what the recursive walks of their programs find. The answer of a run is
therefore the meaning of its program, which is told here by messages alone. -/

namespace Lockstep

/-- What the program of a frame finds from the frame's own state. -/
def Frame.owed (frame : Frame) : Report := frame.program.walk frame.node frame.host frame.path

/-- What the frames of a stack find one after another, the top one first. -/
def owedByStack (stack : List Frame) : Report := .concat (stack.map Frame.owed)

theorem owedByStack_cons (frame : Frame) (rest : List Frame) :
    owedByStack (frame :: rest) = frame.owed ++ owedByStack rest := rfl

theorem owedByStack_append (following rest : List Frame) :
    owedByStack (following ++ rest) = owedByStack following ++ owedByStack rest := by
  rw [owedByStack, List.map_append, Findings.concat_append]
  rfl

/-- One step of a frame keeps what it owes: the frames that follow owe all of it, and a failure or a
fault is all of it. -/
theorem Frame.owed_eq_advance (frame : Frame) :
    frame.owed = match frame.advance with
      | .go following => owedByStack following
      | .fail failure => .single failure
      | .raise fault => .raised fault := by
  obtain ⟨program, node, host, path⟩ := frame
  cases program with
  | descend segment project shape next =>
    simp only [owed, Program.walk, advance]
    rcases node.find segment with fault | _ | part
    · rfl
    · rfl
    · cases Program.projected (path ++ segment.text) project shape host with
      | error fault => rfl
      | ok v => cases hn : next v with
        | error fault => simp only [hn, Program.walkNext]
        | ok p => simp [hn, Program.walkNext, owedByStack, owed]
  | check predicate next =>
    simp only [owed, Program.walk, advance]
    cases predicate node with
    | error fault => rfl
    | ok verdict => cases verdict with
      | some message => rfl
      | none => simp [owedByStack, owed]
  | all members =>
    have hall : owedByStack (members.map fun member => ⟨member, node, host, path⟩) =
        Program.walkAll node host path members := by
      rw [owedByStack, List.map_map, Program.walkAll_eq_concat]
      rfl
    exact hall.symm
  | _ => rfl

/-- The invariant of the loop: what has been found, then what the pending frames owe, is what comes out. -/
theorem runFrames_eq_owed (pending : List Frame) (found : List Failure) :
    runFrames pending found = ⟨found.reverse, none⟩ ++ owedByStack pending := by
  fun_induction runFrames pending found with
  | case1 found => exact (Findings.append_empty _).symm
  | case2 found frame rest following h ih =>
    rw [ih, pushFrames_eq_append, owedByStack_append, owedByStack_cons, frame.owed_eq_advance, h]
  | case3 found frame rest failure h ih =>
    have hf : (⟨(failure :: found).reverse, none⟩ : Report) = ⟨found.reverse, none⟩ ++ .single failure := by
      rw [List.reverse_cons]
      rfl
    rw [ih, hf, owedByStack_cons, frame.owed_eq_advance, h, Findings.append_assoc]
  | case4 found frame rest fault h =>
    rw [owedByStack_cons, frame.owed_eq_advance, h]
    exact congrArg (Findings.mk · (some fault)) (List.append_nil _).symm

theorem interpret_eq_walk (options : RunOptions) (program : Program) (document host : Value) :
    interpret options program document host = program.walk document host options.rootLabel := by
  rw [interpret, runFrames_eq_owed]
  exact Findings.append_empty _

namespace Program

/-- The message of a lookup that finds nothing: a missing key is named, a missing position on request. -/
def missMessage (options : RunOptions) (path : String) : Segment → String
  | .key name => path ++ ("[\"" ++ name ++ "\"]") ++ " failed to match any targets"
  | .index position =>
    let place := if options.indexInFailures then "[" ++ toString position ++ "]" else ""
    path ++ place ++ " failed to match any targets"

mutual

/-- The messages that a program answers with from a node, its host value and its path, or the fault that
comes first. Nothing is made of a descent that does not match but its message, for which the position has to be short
enough to be written. -/
def meaning (options : RunOptions) (node host : Value) (path : String) : Program → Except Fault (List String)
  | .done _ => .ok []
  | .descend segment project shape next => match node.lookup segment with
    | none => if segment.isWritable then .ok [missMessage options path segment] else .error .digitLimit
    | some part => do
      let v ← project host
      match shape with
      | none => pure ()
      | some shape =>
        unless ← shape.test v do throw (.shapeMismatch (path ++ segment.text) v.typeName shape.name)
      meaningNext options part v (path ++ segment.text) (next v)
  | .check predicate next => do
    match ← predicate node with
    | some message => pure [path ++ " failed assertion\n" ++ message]
    | none => meaning options node host path next
  | .terminate => .ok []
  | .all members => meaningAll options node host path members
  | .blank => .error (.unsupportedNode "Program")
  | .stray instruction => .error (.unsupportedInstruction instruction.typeName)
  | .foreign v => .error (.unsupportedNode v.typeName)

def meaningNext (options : RunOptions) (node host : Value) (path : String) :
    Except Fault Program → Except Fault (List String)
  | .ok p => meaning options node host path p
  | .error fault => .error fault

def meaningAll (options : RunOptions) (node host : Value) (path : String) :
    List Program → Except Fault (List String)
  | [] => .ok []
  | p :: ps => do
    let first ← meaning options node host path p
    let rest ← meaningAll options node host path ps
    pure (first ++ rest)

end

variable (options : RunOptions)

theorem text_missing (path : String) (segment : Segment) :
    (Failure.missing path segment).text options = missMessage options path segment := by
  cases segment with
  | key name => rfl
  | index position =>
    unfold Failure.text Failure.label Failure.reason missMessage
    cases options.indexInFailures with
    | true => rfl
    | false => exact congrArg (· ++ " failed to match any targets") String.append_empty.symm

theorem messages_append (a b : Report) :
    (a ++ b : Report).messages options = (do
      let first ← a.messages options
      let rest ← b.messages options
      pure (first ++ rest)) := by
  obtain ⟨fs, _ | fault⟩ := a
  · obtain ⟨gs, _ | fault⟩ := b
    · exact congrArg Except.ok List.map_append
    · rfl
  · rfl

private theorem messages_walkAll {ps : List Program} {node host : Value} {path : String}
    (h : ∀ p ∈ ps, (walk node host path p).messages options = meaning options node host path p) :
    (walkAll node host path ps).messages options = meaningAll options node host path ps := by
  induction ps with
  | nil => rfl
  | cons p ps ih =>
    obtain ⟨hp, hps⟩ := List.forall_mem_cons.1 h
    rw [walkAll, messages_append, hp, ih hps, meaningAll]

/-- The recursion on reports and the recursion on messages answer alike. -/
theorem messages_walk (p : Program) (node host : Value) (path : String) :
    (walk node host path p).messages options = meaning options node host path p := by
  induction p generalizing node host path with
  | descend segment project shape next ih =>
    rw [walk, meaning, Value.find]
    cases node.lookup segment with
    | none =>
      by_cases hw : segment.isWritable
      · simp only [hw, if_true]
        exact congrArg (fun text => Except.ok [text]) (text_missing options path segment)
      · rw [if_neg hw, if_neg hw]
        rfl
    | some part =>
      simp only [projected]
      cases project host with
      | error fault => rfl
      | ok v =>
        have hnext : (walkNext part v (path ++ segment.text) (next v)).messages options =
            meaningNext options part v (path ++ segment.text) (next v) := by
          cases hn : next v with
          | error fault => rfl
          | ok p => exact ih v p hn _ _ _
        cases shape with
        | none => exact hnext
        | some shape =>
          cases ht : shape.test v with
          | error fault => simp [ht, Bind.bind, Except.bind]; rfl
          | ok fits => cases fits with
            | true => simpa [ht, Bind.bind, Except.bind, Pure.pure, Except.pure] using hnext
            | false => simp [ht, Bind.bind, Except.bind, throw, throwThe, MonadExceptOf.throw]; rfl
  | check predicate next ih =>
    rw [walk, meaning]
    cases predicate node with
    | error fault => rfl
    | ok verdict => cases verdict with
      | none => exact ih node host path
      | some message =>
        have ht : (Failure.rejected path message).text options = path ++ " failed assertion\n" ++ message :=
          (String.append_assoc ..).symm
        exact congrArg (fun text => Except.ok [text]) ht
  | all members ih =>
    rw [walk, meaning]
    exact messages_walkAll options fun p hp => ih p hp node host path
  | _ => rfl

end Program

/-- The loop gives what the recursion gives from the root's label on: the same messages in the same order,
or the fault that the recursion meets first. -/
theorem messages_interpret (options : RunOptions) (program : Program) (document host : Value) :
    (interpret options program document host).messages options =
      program.meaning options document host options.rootLabel := by
  rw [interpret_eq_walk, Program.messages_walk]

end Lockstep
