import Mathlib.Data.List.Induction
import Lockstep.Proofs.BindLaws
import Lockstep.Proofs.BranchSequencing

/-! Chains. The programs of a chain are joined from the right, the last one first. The same program comes out when
they are joined from the left, and when two parts of the chain are joined, so a run of a chain runs the programs
one after another. -/

namespace Lockstep

namespace Findings
variable {α β : Type}

theorem mem_append {a : α} {x y : Findings α} (h : a ∈ (x ++ y).found) : a ∈ x.found ∨ a ∈ y.found := by
  obtain ⟨xs, _ | fault⟩ := x
  · exact List.mem_append.1 h
  · exact .inl h

/-- What is found from everything found is found from one of the things found. -/
theorem exists_of_mem_flatMap {f : α → Findings β} {r : Findings α} {b : β} (h : b ∈ (r.flatMap f).found) :
    ∃ a ∈ r.found, b ∈ (f a).found := by
  obtain ⟨xs, fault?⟩ := r
  induction xs with
  | nil => cases h
  | cons x xs ih =>
    rcases mem_append h with h | h
    · exact ⟨x, List.mem_cons_self, h⟩
    · obtain ⟨a, ha, hb⟩ := ih h
      exact ⟨a, List.mem_cons_of_mem x ha, hb⟩

end Findings

/-- The branches of programs that are run one after another, each from where the branches before completed. -/
def inTurn (started : Findings Branch) (ps : List Program) : Findings Branch :=
  ps.foldl (fun found p => found.flatMap (Branch.extended fun _ => .ok p)) started

namespace Program

section AndThen
variable {p q r s t : Program}

theorem WellFormed.exists_andThen (hp : p.WellFormed) (hq : q.WellFormed) :
    ∃ r, p.andThen q = .ok r ∧ r.WellFormed := by
  have hproper : Proper fun _ => .ok q := fun _ => ⟨q, rfl, hq⟩
  obtain ⟨r, hr⟩ := hp.bind_ok hproper.total
  exact ⟨r, hr, hp.of_bind hproper hr⟩

/-- Three programs are joined to the same program from the left and from the right. -/
theorem WellFormed.andThen_assoc (hp : p.WellFormed) (hpq : p.andThen q = .ok r) (hqs : q.andThen s = .ok t) :
    r.andThen s = p.andThen t := by
  have hnext : (fun _ : Value => bindNext (fun _ => .ok s) (.ok q)) = fun _ => .ok t := funext fun _ => hqs
  calc r.andThen s = p.bind fun _ => bindNext (fun _ => .ok s) (.ok q) := hp.bind_bind (fun _ => ⟨q, rfl⟩) hpq
    _ = p.andThen t := by rw [hnext, andThen]

/-- The branches of joined programs are those of the first, and the completed ones go on with the second. -/
theorem WellFormed.branches_andThen (hp : p.WellFormed) (h : p.andThen q = .ok r) (node host : Value)
    (path : String) :
    r.branches node host path = inTurn (p.branches node host path) [q] :=
  hp.branches_bind (fun _ => ⟨q, rfl⟩) h node host path

end AndThen

section Chain
variable {p q : Program} {ps : List Program}

theorem chain_cons (h : ps ≠ []) : chain (p :: ps) = chain ps >>= p.andThen := by
  cases ps with
  | nil => exact absurd rfl h
  | cons q ps => rfl

/-- A chain is joined from the last program on, with one program after another put in front. -/
theorem chain_eq_foldlM_reverse (init : List Program) (last : Program) :
    chain (init ++ [last]) = init.reverse.foldlM (fun rest first => first.andThen rest) last := by
  induction init with
  | nil => rfl
  | cons p init ih =>
    rw [List.cons_append, chain_cons (by simp), ih, List.reverse_cons, List.foldlM_append]
    simp only [List.foldlM_cons, List.foldlM_nil, bind_pure]

/-- A chain of well-formed programs is made, and is well-formed. -/
theorem exists_chain (h : ∀ p ∈ ps, p.WellFormed) : ∃ q, chain ps = .ok q ∧ q.WellFormed := by
  induction ps with
  | nil => exact ⟨_, rfl, .done .null⟩
  | cons p ps ih =>
    obtain ⟨hp, hps⟩ := List.forall_mem_cons.1 h
    by_cases hne : ps = []
    · subst hne
      exact ⟨p, rfl, hp⟩
    · obtain ⟨rest, hrest, hwf⟩ := ih hps
      rw [chain_cons hne, hrest]
      exact hp.exists_andThen hwf

/-- A chain of two parts is the chain of the first followed by the chain of the second. -/
theorem chain_append {xs ys : List Program} {front rest : Program} (hxs : xs ≠ []) (hys : ys ≠ [])
    (hwf : ∀ p ∈ xs ++ ys, p.WellFormed) (hfront : chain xs = .ok front) (hrest : chain ys = .ok rest) :
    chain (xs ++ ys) = front.andThen rest := by
  induction xs generalizing front with
  | nil => exact absurd rfl hxs
  | cons p xs ih =>
    rw [List.cons_append] at hwf ⊢
    obtain ⟨hp, hall⟩ := List.forall_mem_cons.1 hwf
    by_cases hne : xs = []
    · subst hne
      cases hfront
      rw [List.nil_append, chain_cons hys, hrest]
      rfl
    · obtain ⟨middle, hmiddle, hmwf⟩ := exists_chain fun q hq => hall q (List.mem_append_left ys hq)
      obtain ⟨joined, hjoined, -⟩ := exists_chain hall
      have hpart : middle.andThen rest = .ok joined := (ih hne hall hmiddle).symm.trans hjoined
      rw [chain_cons hne, hmiddle] at hfront
      rw [chain_cons (List.append_ne_nil_of_left_ne_nil hne ys), hjoined]
      exact (hp.andThen_assoc hfront hpart).symm

/-- Joining from the left gives the chain as well. -/
theorem foldlM_andThen_eq_chain (h : ∀ q ∈ p :: ps, q.WellFormed) : ps.foldlM andThen p = chain (p :: ps) := by
  induction ps using List.reverseRecOn with
  | nil => rfl
  | append_singleton init last ih =>
    have hinit : ∀ q ∈ p :: init, q.WellFormed := fun q hq => h q (List.mem_append_left [last] hq)
    obtain ⟨front, hfront, -⟩ := exists_chain hinit
    have hstep : (init ++ [last]).foldlM andThen p = front.andThen last := by
      rw [List.foldlM_append, ih hinit, hfront]
      exact bind_pure (front.andThen last)
    rw [hstep]
    exact (chain_append (List.cons_ne_nil p init) (List.cons_ne_nil last []) h hfront rfl).symm

/-- The branches of programs joined from the left are those of the programs in turn. -/
theorem branches_foldlM (h : ∀ q ∈ p :: ps, q.WellFormed) (hq : ps.foldlM andThen p = .ok q)
    (node host : Value) (path : String) :
    q.branches node host path = inTurn (p.branches node host path) ps := by
  induction ps generalizing p with
  | nil => cases hq; rfl
  | cons r ps ih =>
    obtain ⟨hp, hr, hps⟩ := by simpa only [List.forall_mem_cons] using h
    obtain ⟨s, hs, hswf⟩ := hp.exists_andThen hr
    rw [List.foldlM_cons, hs] at hq
    rw [ih (List.forall_mem_cons.2 ⟨hswf, hps⟩) hq, hp.branches_andThen hs]
    rfl

/-- What a chain completes with, its last program completes with. -/
theorem completed_of_chain {init : List Program} {last : Program} (h : ∀ p ∈ init ++ [last], p.WellFormed)
    (hq : chain (init ++ [last]) = .ok q) {node host result node' host' : Value} {path path' : String}
    (hb : .completed result node' host' path' ∈ (q.branches node host path).found) :
    ∃ start value label, .completed result node' host' path' ∈ (last.branches start value label).found := by
  by_cases hne : init = []
  · subst hne
    cases hq
    exact ⟨node, host, path, hb⟩
  · obtain ⟨front, hfront, hwf⟩ := exists_chain fun p hp => h p (List.mem_append_left [last] hp)
    have hjoin : front.andThen last = .ok q :=
      (chain_append hne (List.cons_ne_nil last []) h hfront rfl).symm.trans hq
    rw [hwf.branches_andThen hjoin] at hb
    obtain ⟨b, -, hb⟩ := Findings.exists_of_mem_flatMap hb
    cases b with
    | failed failure => cases List.mem_singleton.1 hb
    | terminated => cases List.mem_singleton.1 hb
    | completed _ start value label => exact ⟨start, value, label, hb⟩

end Chain

/-- A chain, which is joined from the right, is the program that joining from the left gives, and any part of it
followed by the rest. A run of it is a run of the programs in turn, each from where the ones before completed, and
completes with results of the last program. -/
theorem chain_left_to_right {p : Program} {ps : List Program} (h : ∀ q ∈ p :: ps, q.WellFormed) :
    ∃ q, chain (p :: ps) = .ok q ∧ ps.foldlM andThen p = .ok q ∧
      (∀ init last, init ++ [last] = p :: ps →
        init.reverse.foldlM (fun rest first => first.andThen rest) last = .ok q ∧
        ∀ node host path result node' host' path',
          .completed result node' host' path' ∈ (q.branches node host path).found →
          ∃ start value label, .completed result node' host' path' ∈ (last.branches start value label).found) ∧
      (∀ xs ys, xs ≠ [] → ys ≠ [] → xs ++ ys = p :: ps → ∃ front rest,
        chain xs = .ok front ∧ chain ys = .ok rest ∧ front.andThen rest = .ok q) ∧
      ∀ options document host, interpret options q document host =
        (inTurn (p.branches document host options.rootLabel) ps).flatMap Branch.report := by
  obtain ⟨q, hq, -⟩ := exists_chain h
  have hleft : ps.foldlM andThen p = .ok q := (foldlM_andThen_eq_chain h).trans hq
  refine ⟨q, hq, hleft, ?_, ?_, ?_⟩
  · intro init last hsplit
    rw [← hsplit] at h hq
    refine ⟨(chain_eq_foldlM_reverse init last).symm.trans hq, ?_⟩
    intro node host path result node' host' path' hb
    exact completed_of_chain h hq hb
  · intro xs ys hxs hys hsplit
    rw [← hsplit] at h hq
    obtain ⟨front, hfront, -⟩ := exists_chain fun p hp => h p (List.mem_append_left ys hp)
    obtain ⟨rest, hrest, -⟩ := exists_chain fun p hp => h p (List.mem_append_right xs hp)
    exact ⟨front, rest, hfront, hrest, (chain_append hxs hys h hfront hrest).symm.trans hq⟩
  · intro options document host
    rw [interpret_eq_walk, walk_eq_branches, branches_foldlM h hleft]

theorem chain_left_to_right_fanOut :
    let last : Program := .require (equalTo (.int 1))
    ∃ q front rest, chain [fanOut, .key "age", last] = .ok q ∧ [.key "age", last].foldlM andThen fanOut = .ok q ∧
      chain [fanOut] = .ok front ∧ chain [.key "age", last] = .ok rest ∧ front.andThen rest = .ok q ∧
      interpret {} q .null .null = ⟨[.missing "subject" (.key "name"), .missing "subject" (.key "age")], none⟩ := by
  intro last
  have hwf : ∀ q ∈ [fanOut, .key "age", last], q.WellFormed := by
    simp only [List.forall_mem_cons]
    exact ⟨fanOut_wellFormed, .key "age" .ok none, .require _, List.forall_mem_nil _⟩
  obtain ⟨q, hq, hleft, -, hparts, hrun⟩ := chain_left_to_right hwf
  obtain ⟨front, rest, hfront, hrest, hjoin⟩ := hparts [fanOut] _ (List.cons_ne_nil _ _) (List.cons_ne_nil _ _) rfl
  exact ⟨q, front, rest, hq, hleft, hfront, hrest, hjoin, hrun {} .null .null⟩

end Program

end Lockstep
