import Mathlib.SetTheory.Ordinal.Rank
import Lockstep.Proofs.FrameTrails

/-! The turns of the loop. A turn takes the top frame of the stack and puts the frames that follow it in its place.
Programs have ranks that fall from a program to what follows it, so the turns come to an end, and at every moment the
frames that were ever put on the stack are those that were taken and those that are still there, each of them once. -/

namespace Lockstep

/-- Where a frame stands in a run: its position among the frames that were put on the stack together, followed by
the address of the frame that they follow. -/
abbrev Address := List Nat

/-- The frames that follow the one at an address, at addresses of their own. -/
def Address.below (a : Address) (following : List Frame) : List (Address × Frame) :=
  following.zipIdx.map fun e => (e.2 :: a, e.1)

/-- The loop between two turns: the frames on the stack, the top one first, those that were ever put there and those
that were taken, both in order, and the failures found, the last one first. -/
structure Loop where
  pending : List (Address × Frame)
  put : List (Address × Frame)
  taken : List (Address × Frame)
  found : List Failure

/-- How a turn of the loop ends. -/
inductive Turn where
  /-- There is no frame on the stack. -/
  | ended
  | next (s : Loop)
  | raised (fault : Fault)

namespace Address
variable {a b : Address} {following : List Frame} {f : Frame}

@[simp] theorem map_snd_below (a : Address) (following : List Frame) : (a.below following).map (·.2) = following := by
  rw [below, List.map_map]
  exact List.zipIdx_map_fst 0 following

private theorem mem_below : (b, f) ∈ a.below following ↔ ∃ i, b = i :: a ∧ following[i]? = some f := by
  simp only [below, List.mem_map, Prod.mk.injEq, Prod.exists, List.mk_mem_zipIdx_iff_getElem?]
  constructor
  · rintro ⟨g, i, hg, rfl, rfl⟩
    exact ⟨i, rfl, hg⟩
  · rintro ⟨i, rfl, hf⟩
    exact ⟨f, i, hf, rfl, rfl⟩

private theorem nodup_below (a : Address) (following : List Frame) : ((a.below following).map (·.1)).Nodup := by
  have hpositions : (a.below following).map (·.1) = (following.zipIdx.map (·.2)).map (· :: a) := by
    rw [below, List.map_map, List.map_map]
    rfl
  rw [hpositions, List.zipIdx_map_snd]
  apply List.Nodup.map
  · intro i j hij
    exact (List.cons.inj hij).1
  · exact List.nodup_range'

end Address

section Running
variable {frame : Frame} {rest following : List Frame} {found : List Failure}

private theorem runFrames_go (h : frame.advance = .go following) :
    runFrames (frame :: rest) found = runFrames (following ++ rest) found := by
  rw [runFrames]
  split <;> rename_i h' <;> cases h.symm.trans h'
  rw [pushFrames_eq_append]

private theorem runFrames_fail {failure : Failure} (h : frame.advance = .fail failure) :
    runFrames (frame :: rest) found = runFrames rest (failure :: found) := by
  rw [runFrames]
  split <;> rename_i h' <;> cases h.symm.trans h'
  rfl

private theorem runFrames_raise {fault : Fault} (h : frame.advance = .raise fault) :
    runFrames (frame :: rest) found = ⟨found.reverse, some fault⟩ := by
  rw [runFrames]
  split <;> rename_i h' <;> cases h.symm.trans h'
  rfl

end Running

namespace Loop
variable {s t u : Loop} {n : Nat}

/-- The loop before its first turn. -/
def start (frame : Frame) : Loop := ⟨[([], frame)], [([], frame)], [], []⟩

/-- The frames on the stack. -/
def frames (s : Loop) : List Frame := s.pending.map (·.2)

/-- One turn of the loop. -/
def turn (s : Loop) : Turn :=
  match s.pending with
  | [] => .ended
  | top :: rest => match top.2.advance with
    | .go following =>
      .next ⟨top.1.below following ++ rest, s.put ++ top.1.below following, s.taken ++ [top], s.found⟩
    | .fail failure => .next ⟨rest, s.put, s.taken ++ [top], failure :: s.found⟩
    | .raise fault => .raised fault

/-- So many turns lead from the first state of the loop to the second. -/
inductive Turns : Nat → Loop → Loop → Prop where
  | none (s : Loop) : Turns 0 s s
  | more {n : Nat} {s t u : Loop} (h : s.turn = .next t) (rest : Turns n t u) : Turns (n + 1) s u

/-- All that a turn does which is not the last. -/
structure Next (s t : Loop) (top : Address × Frame) (rest : List (Address × Frame)) (following : List Frame) :
    Prop where
  pending : s.pending = top :: rest
  pending' : t.pending = top.1.below following ++ rest
  put' : t.put = s.put ++ top.1.below following
  taken' : t.taken = s.taken ++ [top]
  follows : ∀ f ∈ following, Frame.Follows f.program top.2.program
  eq_of_go : ∀ further, top.2.advance = .go further → further = following
  report : runFrames s.frames s.found = runFrames t.frames t.found
  takenFrames_eq : takenFrames s.frames = top.2 :: takenFrames t.frames

theorem exists_next (h : s.turn = .next t) : ∃ top rest following, s.Next t top rest following := by
  obtain ⟨pending, put, taken, found⟩ := s
  cases pending with
  | nil => cases h
  | cons top rest =>
    simp only [turn] at h
    -- A frame that fails is followed by no frames, so both ends of a turn are alike for the stack.
    split at h
    · rename_i following hgo
      cases h
      refine ⟨top, rest, following, rfl, rfl, rfl, rfl, Frame.follows_of_advance hgo, ?_, ?_, ?_⟩
      · intro further hfurther
        exact Advance.go.inj (hfurther.symm.trans hgo)
      · simp only [frames, List.map_cons, List.map_append, Address.map_snd_below]
        rw [runFrames_go hgo]
      · simp only [frames, List.map_cons, List.map_append, Address.map_snd_below]
        rw [takenFrames_go hgo, pushFrames_eq_append]
    · rename_i failure hfail
      cases h
      refine ⟨top, rest, [], rfl, rfl, (List.append_nil put).symm, rfl, List.forall_mem_nil _, ?_, ?_, ?_⟩
      · intro further hfurther
        cases hfail.symm.trans hfurther
      · simp only [frames, List.map_cons]
        rw [runFrames_fail hfail]
      · exact takenFrames_fail hfail
    · cases h

private theorem report_of_ended (h : s.turn = .ended) :
    s.pending = [] ∧ runFrames s.frames s.found = ⟨s.found.reverse, none⟩ := by
  obtain ⟨pending, put, taken, found⟩ := s
  cases pending with
  | nil => exact ⟨rfl, by rw [frames, List.map_nil, runFrames]⟩
  | cons top rest =>
    simp only [turn] at h
    split at h <;> cases h

private theorem report_of_raised {fault : Fault} (h : s.turn = .raised fault) :
    runFrames s.frames s.found = ⟨s.found.reverse, some fault⟩ := by
  obtain ⟨pending, put, taken, found⟩ := s
  cases pending with
  | nil => cases h
  | cons top rest =>
    simp only [turn] at h
    split at h
    · cases h
    · cases h
    · rename_i hraise
      cases h
      exact runFrames_raise hraise

/-- Turns change nothing about what the run reports in the end. -/
theorem Turns.report (h : Turns n s t) : runFrames s.frames s.found = runFrames t.frames t.found := by
  induction h with
  | none => rfl
  | more h _ ih =>
    obtain ⟨top, rest, following, hnext⟩ := exists_next h
    rw [hnext.report, ih]

private theorem Turns.length_taken (h : Turns n s t) : t.taken.length = s.taken.length + n := by
  induction h with
  | none => rfl
  | more h _ ih =>
    obtain ⟨top, rest, following, hnext⟩ := exists_next h
    rw [ih, hnext.taken', List.length_append, List.length_singleton]
    omega

/-- What was taken so far and what will be taken from the stack are the same frames after every turn. -/
theorem Turns.takenFrames_eq (h : Turns n s t) :
    s.taken.map (·.2) ++ takenFrames s.frames = t.taken.map (·.2) ++ takenFrames t.frames := by
  induction h with
  | none => rfl
  | more h _ ih =>
    obtain ⟨top, rest, following, hnext⟩ := exists_next h
    rw [← ih, hnext.takenFrames_eq, hnext.taken', List.map_append, List.append_assoc]
    rfl

/-- A turn replaces the top frame by frames that follow it. -/
theorem Next.residue {top : Address × Frame} {rest : List (Address × Frame)} {following : List Frame}
    (h : s.Next t top rest following) : Residue t.frames s.frames := by
  rw [frames, frames, h.pending, h.pending', List.map_cons, List.map_append, Address.map_snd_below]
  exact .replace top.2 following _ h.follows

/-- The loop ends from any state, because the stack cannot fall in the order of residues for ever. -/
theorem exists_turns (s : Loop) : ∃ n t, Turns n s t ∧ (t.turn = .ended ∨ ∃ fault, t.turn = .raised fault) := by
  have hacc := acc_residue s.frames
  generalize hstack : s.frames = stack at hacc
  induction hacc generalizing s with
  | intro stack _ ih =>
    cases hturn : s.turn with
    | ended => exact ⟨0, s, .none s, .inl hturn⟩
    | raised fault => exact ⟨0, s, .none s, .inr ⟨fault, hturn⟩⟩
    | next t =>
      obtain ⟨top, rest, following, hnext⟩ := exists_next hturn
      have hfalls : Residue t.frames stack := hstack ▸ hnext.residue
      obtain ⟨n, u, hturns, hend⟩ := ih t.frames hfalls t rfl
      exact ⟨n + 1, u, .more hturn hturns, hend⟩

/-- The books of the loop: what was put on the stack is what was taken and what is pending, no two frames that were
put there have the same address, and all frames that follow one that was taken were put there. -/
structure Balanced (s : Loop) : Prop where
  perm : s.put.Perm (s.taken ++ s.pending)
  distinct : (s.put.map (·.1)).Nodup
  parent : ∀ i a, i :: a ∈ s.put.map (·.1) → a ∈ s.taken.map (·.1)
  children : ∀ e ∈ s.taken, ∀ following, e.2.advance = .go following → ∀ f ∈ e.1.below following, f ∈ s.put

private theorem balanced_start (frame : Frame) : (start frame).Balanced := by
  refine ⟨List.Perm.refl _, List.nodup_singleton _, ?_, List.forall_mem_nil _⟩
  intro i a h
  cases List.mem_singleton.1 h

/-- The top frame of the stack was not taken before, so none of its followers was put on the stack before. -/
theorem Balanced.disjoint_below (h : s.Balanced) {top : Address × Frame} {rest : List (Address × Frame)}
    (hpending : s.pending = top :: rest) (following : List Frame) :
    (s.put.map (·.1)).Disjoint ((top.1.below following).map (·.1)) := by
  intro b hput hbelow
  obtain ⟨⟨_, f⟩, hf, rfl⟩ := List.mem_map.1 hbelow
  obtain ⟨i, rfl, -⟩ := Address.mem_below.1 hf
  have htaken : top.1 ∈ s.taken.map (·.1) := h.parent i top.1 hput
  have hnodup : ((s.taken ++ s.pending).map (·.1)).Nodup := (h.perm.map _).nodup_iff.1 h.distinct
  rw [hpending, List.map_append, List.map_cons] at hnodup
  exact List.disjoint_of_nodup_append hnodup htaken List.mem_cons_self

/-- A turn keeps the books. -/
theorem Balanced.next (h : s.Balanced) (hturn : s.turn = .next t) : t.Balanced := by
  obtain ⟨top, rest, following, hnext⟩ := exists_next hturn
  constructor
  · rw [hnext.put', hnext.taken', hnext.pending']
    calc (s.put ++ top.1.below following).Perm (s.taken ++ s.pending ++ top.1.below following) :=
          h.perm.append_right _
      _ = s.taken ++ ([top] ++ (rest ++ top.1.below following)) := by
          rw [hnext.pending, List.append_assoc]
          rfl
      _ = s.taken ++ [top] ++ (rest ++ top.1.below following) := by rw [List.append_assoc]
      List.Perm _ (s.taken ++ [top] ++ (top.1.below following ++ rest)) :=
          List.perm_append_comm.append_left _
  · rw [hnext.put', List.map_append]
    exact h.distinct.append (Address.nodup_below _ _) (h.disjoint_below hnext.pending following)
  · intro i a hmem
    rw [hnext.taken', List.map_append]
    rw [hnext.put', List.map_append] at hmem
    rcases List.mem_append.1 hmem with hold | hnew
    · exact List.mem_append_left _ (h.parent i a hold)
    · obtain ⟨⟨_, f⟩, hf, rfl⟩ := List.mem_map.1 hnew
      obtain ⟨j, hj, -⟩ := Address.mem_below.1 hf
      rw [(List.cons.inj hj).2]
      exact List.mem_append_right _ List.mem_cons_self
  · intro e he further hgo f hf
    rw [hnext.put']
    rw [hnext.taken'] at he
    rcases List.mem_append.1 he with hold | hnew
    · exact List.mem_append_left _ (h.children e hold further hgo f hf)
    · rw [List.mem_singleton.1 hnew] at hgo hf
      rw [hnext.eq_of_go further hgo] at hf
      exact List.mem_append_right _ hf

theorem Turns.balanced (h : Turns n s t) (hs : s.Balanced) : t.Balanced := by
  induction h with
  | none => exact hs
  | more h _ ih => exact ih (hs.next h)

/-- Under an address of its own, a frame is the only one. -/
theorem filter_address {es : List (Address × Frame)} (distinct : (es.map (·.1)).Nodup) {e : Address × Frame}
    (he : e ∈ es) : es.filter (fun x => x.1 = e.1) = [e] := by
  obtain ⟨before, after, rfl⟩ := List.append_of_mem he
  rw [List.map_append, List.map_cons] at distinct
  have hafter := List.nodup_cons.1 (List.Nodup.of_append_right distinct)
  have hbefore : e.1 ∉ before.map (·.1) := by
    intro h
    exact List.disjoint_of_nodup_append distinct h List.mem_cons_self
  have hnone {xs : List (Address × Frame)} (h : e.1 ∉ xs.map (·.1)) : xs.filter (fun x => x.1 = e.1) = [] := by
    rw [List.filter_eq_nil_iff]
    intro x hx heq
    exact h (of_decide_eq_true heq ▸ List.mem_map_of_mem hx)
  rw [List.filter_append, List.filter_cons, hnone hbefore, hnone hafter.1]
  simp

/-- When the stack is empty, everything that was put there was taken once. -/
theorem Balanced.taken_of_ended (h : s.Balanced) (hend : s.pending = []) :
    s.taken.Perm s.put ∧ (s.taken.map (·.1)).Nodup := by
  have hperm : s.taken.Perm s.put := by
    have hput := h.perm
    rw [hend, List.append_nil] at hput
    exact hput.symm
  exact ⟨hperm, (hperm.map _).nodup_iff.2 h.distinct⟩

/-- When the stack is empty, every member of a combination that was taken was taken once, from the state of the
combination. -/
theorem Balanced.member_taken (h : s.Balanced) (hend : s.pending = []) {a : Address} {frame : Frame}
    {members : List Program} (hframe : (a, frame) ∈ s.taken) (hall : frame.program = .all members) {i : Nat}
    {member : Program} (hi : members[i]? = some member) :
    s.taken.filter (fun e => e.1 = i :: a) = [(i :: a, { frame with program := member })] := by
  obtain ⟨hperm, hdistinct⟩ := h.taken_of_ended hend
  have hgo : frame.advance = .go (members.map fun member => { frame with program := member }) := by
    obtain ⟨program, node, host, path⟩ := frame
    cases hall
    rfl
  have hbelow : (i :: a, { frame with program := member }) ∈
      Address.below a (members.map fun member => { frame with program := member }) := by
    rw [Address.mem_below]
    exact ⟨i, rfl, by rw [List.getElem?_map, hi]; rfl⟩
  have hput := h.children _ hframe _ hgo _ hbelow
  exact filter_address hdistinct (hperm.mem_iff.2 hput)

end Loop

/-- The loop ends, since each program that follows another one has a lower rank. No two frames are ever put on the
stack at one address, and where the stack is empty in the end every one of them was taken once, and so was every member
of every combination. -/
theorem interpret_takes_once (options : RunOptions) (program : Program) (document host : Value) :
    let first : Frame := ⟨program, document, host, options.rootLabel⟩
    (∃ rank : Program → Ordinal.{0}, ∀ p q, Frame.Follows q p → rank q < rank p) ∧
    (∀ n s, Loop.Turns n (.start first) s →
      interpret options program document host = runFrames s.frames s.found ∧
        s.put.Perm (s.taken ++ s.pending) ∧ (s.put.map (·.1)).Nodup ∧ s.taken.length = n) ∧
    ∃ n last, Loop.Turns n (.start first) last ∧
      ((last.turn = .ended ∧ interpret options program document host = ⟨last.found.reverse, none⟩ ∧
          last.pending = [] ∧ last.taken.Perm last.put ∧ last.taken.map (·.2) = takenFrames [first] ∧
          ∀ a frame members, (a, frame) ∈ last.taken → frame.program = .all members →
            ∀ i member, members[i]? = some member →
              last.taken.filter (fun e => e.1 = i :: a) = [(i :: a, { frame with program := member })]) ∨
        ∃ fault, last.turn = .raised fault ∧
          interpret options program document host = ⟨last.found.reverse, some fault⟩) := by
  intro first
  have hranks : ∃ rank : Program → Ordinal.{0}, ∀ p q, Frame.Follows q p → rank q < rank p := by
    have hwell : IsWellFounded Program Frame.Follows := ⟨⟨Frame.acc_follows⟩⟩
    exact ⟨IsWellFounded.rank Frame.Follows, fun p q h => IsWellFounded.rank_lt_of_rel h⟩
  have hbalanced {n : Nat} {s : Loop} (h : Loop.Turns n (.start first) s) : s.Balanced :=
    h.balanced (Loop.balanced_start first)
  refine ⟨hranks, fun n s h => ⟨h.report, (hbalanced h).perm, (hbalanced h).distinct, ?_⟩, ?_⟩
  · rw [h.length_taken]
    exact Nat.zero_add n
  · obtain ⟨n, last, hturns, hend⟩ := Loop.exists_turns (.start first)
    have hreport : interpret options program document host = runFrames last.frames last.found := hturns.report
    refine ⟨n, last, hturns, ?_⟩
    rcases hend with hended | ⟨fault, hraised⟩
    · obtain ⟨hempty, hlast⟩ := Loop.report_of_ended hended
      have htaken : takenFrames [first] = last.taken.map (·.2) ++ takenFrames last.frames := hturns.takenFrames_eq
      rw [Loop.frames, hempty, List.map_nil, takenFrames, List.append_nil] at htaken
      refine .inl ⟨hended, hreport.trans hlast, hempty, ((hbalanced hturns).taken_of_ended hempty).1, htaken.symm, ?_⟩
      intro a frame members hframe hall i member hi
      exact (hbalanced hturns).member_taken hempty hframe hall hi
    · exact .inr ⟨fault, hraised, hreport.trans (Loop.report_of_raised hraised)⟩

end Lockstep
