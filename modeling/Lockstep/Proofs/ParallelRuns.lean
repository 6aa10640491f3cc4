import Mathlib.Data.List.Forall2
import Lockstep.Proofs.CanonicalText
import Lockstep.Proofs.LookupAgreement
import Lockstep.Proofs.ProgramChecks

/-! One program run on two documents side by side. If related nodes have related parts and every predicate
judges related nodes alike, the two runs stay side by side and report alike. Equal documents are such a pair
for programs that only compare nodes with values. -/

namespace Lockstep

/-- Two verdicts of a predicate: the same fault, both accepting, or both rejecting with related messages. -/
inductive VerdictsMatch (related : String → String → Prop) :
    Except Fault (Option String) → Except Fault (Option String) → Prop where
  | fault (fault : Fault) : VerdictsMatch related (.error fault) (.error fault)
  | accepted : VerdictsMatch related (.ok none) (.ok none)
  | rejected {m n : String} (h : related m n) : VerdictsMatch related (.ok (some m)) (.ok (some n))

/-- Two failures of the same kind at the same place, with related messages if they have any. -/
inductive Failure.Matches (related : String → String → Prop) : Failure → Failure → Prop where
  | missing (path : String) (segment : Segment) : Matches related (.missing path segment) (.missing path segment)
  | rejected (path : String) {m n : String} (h : related m n) :
      Matches related (.rejected path m) (.rejected path n)

/-- Two reports of failures that match one by one, with the same fault at the end or none. -/
structure Report.Matches (related : String → String → Prop) (a b : Report) : Prop where
  found : List.Forall₂ (Failure.Matches related) a.found b.found
  fault?_eq : a.fault? = b.fault?

namespace Report
variable {related : String → String → Prop}

theorem Matches.empty : Matches related .empty .empty := ⟨.nil, rfl⟩

theorem Matches.raised (fault : Fault) : Matches related (.raised fault) (.raised fault) := ⟨.nil, rfl⟩

theorem Matches.single {f g : Failure} (h : f.Matches related g) : Matches related (.single f) (.single g) :=
  ⟨.cons h .nil, rfl⟩

theorem Matches.append {a b c d : Report} (hab : Matches related a b) (hcd : Matches related c d) :
    Matches related (a ++ c : Report) (b ++ d : Report) := by
  obtain ⟨as, fault?⟩ := a
  obtain ⟨bs, _⟩ := b
  obtain ⟨has, rfl⟩ := hab
  cases fault? with
  | some fault => exact ⟨has, rfl⟩
  | none => exact ⟨List.rel_append has hcd.found, hcd.fault?_eq⟩

/-- Reports that match with the same messages are the same. -/
theorem Matches.eq {a b : Report} (h : Matches (· = ·) a b) : a = b := by
  obtain ⟨as, _⟩ := a
  obtain ⟨bs, _⟩ := b
  obtain ⟨hfound, rfl⟩ := h
  have hsame : as = bs := by
    rw [← List.forall₂_eq_eq_eq]
    refine hfound.imp fun f g hfg => ?_
    cases hfg with
    | missing => rfl
    | rejected path h => rw [h]
  rw [hsame]

end Report

namespace Program

section SideBySide
variable {R : Value → Value → Prop} {related : String → String → Prop}
  {allowed : (Value → Except Fault (Option String)) → Prop}

private theorem walkAll_matches {ps : List Program} {v w host : Value} {path : String}
    (h : ∀ p ∈ ps, Report.Matches related (walk v host path p) (walk w host path p)) :
    Report.Matches related (walkAll v host path ps) (walkAll w host path ps) := by
  induction ps with
  | nil => exact .empty
  | cons p ps ih =>
    obtain ⟨hp, hps⟩ := List.forall_mem_cons.1 h
    exact hp.append (ih hps)

/-- Runs of one program from related nodes report alike. -/
theorem Checking.walk_matches {p : Program} (hp : p.Checking allowed)
    (hparts : ∀ v w, R v w → ∀ segment, Option.Rel R (v.lookup segment) (w.lookup segment))
    (hverdicts : ∀ predicate, allowed predicate → ∀ v w, R v w →
      VerdictsMatch related (predicate v) (predicate w))
    {v w : Value} (h : R v w) (host : Value) (path : String) :
    Report.Matches related (walk v host path p) (walk w host path p) := by
  -- Both nodes are general: behind a descent the runs go on from related parts.
  induction hp generalizing v w host path with
  | done result => exact .empty
  | @descend segment project shape next _ ih =>
    rw [walk, walk]
    rw [Value.find, Value.find]
    have hpart := hparts v w h segment
    generalize v.lookup segment = a at hpart
    generalize w.lookup segment = b at hpart
    cases hpart with
    | none =>
      by_cases hwritable : segment.isWritable
      · simp only [hwritable, if_true]
        exact .single (.missing path segment)
      · simp only [hwritable]
        exact .raised .digitLimit
    | some hpart =>
      cases projected (path ++ segment.text) project shape host with
      | error fault => exact .raised fault
      | ok u => cases hn : next u with
        | error fault => simpa only [hn, walkNext] using .raised fault
        | ok p => simpa only [hn, walkNext] using ih u p hn hpart u _
  | @check predicate next ha _ ih =>
    rw [walk, walk]
    have hverdict := hverdicts predicate ha v w h
    generalize predicate v = a at hverdict
    generalize predicate w = b at hverdict
    cases hverdict with
    | fault fault => exact .raised fault
    | accepted => exact ih h host path
    | rejected hm => exact .single (.rejected path hm)
  | terminate => exact .empty
  | all _ ih =>
    rw [walk, walk]
    exact walkAll_matches fun p hp => ih p hp h host path
  | blank => exact .raised _
  | stray instruction => exact .raised _
  | foreign v => exact .raised _

end SideBySide

end Program

/-- Two messages about a difference that may show different nodes, but the same expected text. -/
def DifferInGot (m n : String) : Prop := ∃ e g h, m = differenceText e g ∧ n = differenceText e h

/-- Comparing equal documents with a value has the same verdict. -/
theorem equalTo_matches {v w : Value} (hv : v.Plain) (hw : w.Plain) (h : v.jsonEqual w) (e : Value) :
    VerdictsMatch DifferInGot (equalTo e v) (equalTo e w) := by
  have hequal := hv.jsonEqual_congr hw h e
  by_cases he : v.jsonEqual e
  · rw [equalTo_of_equal he, equalTo_of_equal (hequal ▸ he)]
    exact .accepted
  · rw [equalTo_of_unequal he, equalTo_of_unequal (hequal ▸ he)]
    cases e.render with
    | error fault => exact .fault fault
    | ok s =>
      by_cases hwritable : v.Writable
      · rw [hv.render_eq hwritable, hw.render_eq ((hv.writable_iff hw h).1 hwritable)]
        exact .rejected ⟨s, v.canonicalText, w.canonicalText, rfl, rfl⟩
      · rw [hv.render_eq_digitLimit hwritable, hw.render_eq_digitLimit (mt (hv.writable_iff hw h).2 hwritable)]
        exact .fault .digitLimit

/-- Comparing documents that differ only in the order of entries has the same verdict in the same words. -/
theorem equalTo_reordered {v w : Value} (hv : v.Plain) (h : v.Reordered w) (e : Value) :
    equalTo e v = equalTo e w := by
  rw [equalTo, equalTo, h.jsonEqual_congr, h.render_eq hv]

theorem VerdictsMatch.refl (verdict : Except Fault (Option String)) : VerdictsMatch (· = ·) verdict verdict := by
  cases verdict with
  | error fault => exact .fault fault
  | ok verdict => cases verdict with
    | none => exact .accepted
    | some message => exact .rejected rfl

/-- A segment leads to plain parts of plain data, if to any. -/
theorem Value.Plain.lookup_and {R : Value → Value → Prop} {v w : Value} (hv : v.Plain) (hw : w.Plain)
    {segment : Segment} (h : Option.Rel R (v.lookup segment) (w.lookup segment)) :
    Option.Rel (fun a b => a.Plain ∧ b.Plain ∧ R a b) (v.lookup segment) (w.lookup segment) := by
  cases ha : v.lookup segment <;> cases hb : w.lookup segment <;> rw [ha, hb] at h <;> cases h
  · exact .none
  · rename_i hR
    exact .some ⟨hv.lookup ha, hw.lookup hb, hR⟩

/-- A program that only compares nodes with values cannot tell documents apart that differ only in the order
of entries. -/
theorem interpret_reordered {p : Program} (hp : p.Checking Program.IsComparison) {d₁ d₂ : Value}
    (h₁ : d₁.Plain) (h : d₁.Reordered d₂) (options : RunOptions) (host : Value) :
    interpret options p d₁ host = interpret options p d₂ host := by
  let R (v w : Value) : Prop := v.Plain ∧ w.Plain ∧ v.Reordered w
  have hparts (v w : Value) (hR : R v w) (segment : Segment) :
      Option.Rel R (v.lookup segment) (w.lookup segment) :=
    hR.1.lookup_and hR.2.1 (hR.2.2.lookup_rel segment)
  have hverdicts (predicate) (hpred : Program.IsComparison predicate) (v w : Value) (hR : R v w) :
      VerdictsMatch (· = ·) (predicate v) (predicate w) := by
    obtain ⟨e, rfl⟩ := hpred
    rw [equalTo_reordered hR.1 hR.2.2]
    exact .refl _
  rw [interpret_eq_walk, interpret_eq_walk]
  exact (hp.walk_matches hparts hverdicts ⟨h₁, h.plain h₁, h⟩ host options.rootLabel).eq

/-- The reports on two equal documents match. -/
theorem interpret_matches {p : Program} (hp : p.Checking Program.IsComparison) {d₁ d₂ : Value}
    (h₁ : d₁.Plain) (h₂ : d₂.Plain) (h : d₁.jsonEqual d₂) (options : RunOptions) (host : Value) :
    Report.Matches DifferInGot (interpret options p d₁ host) (interpret options p d₂ host) := by
  let R (v w : Value) : Prop := v.Plain ∧ w.Plain ∧ v.jsonEqual w
  have hparts (v w : Value) (hR : R v w) (segment : Segment) :
      Option.Rel R (v.lookup segment) (w.lookup segment) :=
    hR.1.lookup_and hR.2.1 (hR.1.lookup_rel hR.2.1 hR.2.2 segment)
  have hverdicts (predicate) (hpred : Program.IsComparison predicate) (v w : Value) (hR : R v w) :
      VerdictsMatch DifferInGot (predicate v) (predicate w) := by
    obtain ⟨e, rfl⟩ := hpred
    exact equalTo_matches hR.1 hR.2.1 hR.2.2 e
  rw [interpret_eq_walk, interpret_eq_walk]
  exact hp.walk_matches hparts hverdicts ⟨h₁, h₂, h⟩ host options.rootLabel

/-- On equal documents a program that only compares nodes with values raises the same fault, or reports as many
failures, of the same kinds at the same places, whose messages may differ in the node they show and in nothing
else. On documents that differ only in the order of entries it reports the same. -/
theorem messages_of_equal_documents {p : Program} (hp : p.Checking Program.IsComparison) {d₁ d₂ : Value}
    (h₁ : d₁.Plain) (h₂ : d₂.Plain) (options : RunOptions) (host : Value) :
    let first := interpret options p d₁ host
    let second := interpret options p d₂ host
    (d₁.jsonEqual d₂ →
      (∃ fault, first.messages options = .error fault ∧ second.messages options = .error fault) ∨
      (∃ fs gs, first.messages options = .ok (fs.map (Failure.text options)) ∧
        second.messages options = .ok (gs.map (Failure.text options)) ∧
        List.Forall₂ (Failure.Matches DifferInGot) fs gs)) ∧
    (d₁.Reordered d₂ → first = second ∧ first.messages options = second.messages options) := by
  intro first second
  refine ⟨fun h => ?_, fun h => ?_⟩
  · obtain ⟨hfound, hfault⟩ := interpret_matches hp h₁ h₂ h options host
    change List.Forall₂ _ first.found second.found at hfound
    change first.fault? = second.fault? at hfault
    rw [Report.messages, Report.messages, Findings.outcome, Findings.outcome, ← hfault]
    cases first.fault? with
    | some fault => exact .inl ⟨fault, rfl, rfl⟩
    | none => exact .inr ⟨first.found, second.found, rfl, rfl, hfound⟩
  · have hsame : first = second := interpret_reordered hp h₁ h options host
    exact ⟨hsame, hsame ▸ rfl⟩

theorem messages_of_equal_documents_age :
    let p : Program := .descend (.key "age") .ok none fun host => .ok (.require (equalTo host))
    let whole : Value := .object [("age", .int 1), ("name", .null)]
    let point : Value := .object [("age", .float (.ofNat 1)), ("name", .null)]
    let turned : Value := .object [("name", .null), ("age", .int 1)]
    (whole.jsonEqual point ∧
      ((∃ fault, (interpret {} p whole .null).messages {} = .error fault ∧
        (interpret {} p point .null).messages {} = .error fault) ∨
      (∃ fs gs, (interpret {} p whole .null).messages {} = .ok (fs.map (Failure.text {})) ∧
        (interpret {} p point .null).messages {} = .ok (gs.map (Failure.text {})) ∧
        List.Forall₂ (Failure.Matches DifferInGot) fs gs))) ∧
    (whole.Reordered turned ∧ interpret {} p whole .null = interpret {} p turned .null) := by
  intro p whole point turned
  have hp : p.Checking Program.IsComparison :=
    .descend fun host _ h => Except.ok.inj h ▸ .check ⟨host, rfl⟩ (.done .null)
  have hwhole : whole.Plain := .object (by decide) (by simpa using ⟨.int 1, .null⟩)
  have hpoint : point.Plain := .object (by decide) (by simpa using ⟨.float _, .null⟩)
  have hturned : turned.Plain := .object (by decide) (by simpa using ⟨.null, .int 1⟩)
  have hnumber : (Value.int 1).jsonEqual (.float (.ofNat 1)) :=
    ((Value.IsNumber.int 1).jsonEqual_iff _).2 ⟨nofun, _, rfl, by decide +kernel⟩
  have hequal : whole.jsonEqual point := by
    refine Value.jsonEqual_objects_iff.2 ⟨rfl, ?_⟩
    have hnull : Value.null.jsonEqual .null := Value.jsonEqual_null_iff.2 rfl
    simpa [List.lookup_cons] using ⟨hnumber, hnull⟩
  have hreordered : whole.Reordered turned := by
    refine .object (List.Perm.swap _ _ _) fun name v w hv hw => ?_
    simp only [List.mem_cons, Prod.mk.injEq, List.not_mem_nil, or_false] at hv hw
    obtain ⟨rfl, rfl⟩ | ⟨rfl, rfl⟩ := hv <;> obtain ⟨h, rfl⟩ | ⟨h, rfl⟩ := hw
    · exact absurd h (by decide)
    · exact .refl _
    · exact .refl _
    · exact absurd h (by decide)
  obtain ⟨hmatch, -⟩ := messages_of_equal_documents hp hwhole hpoint {} .null
  obtain ⟨-, hsame⟩ := messages_of_equal_documents hp hwhole hturned {} .null
  exact ⟨⟨hequal, hmatch hequal⟩, hreordered, (hsame hreordered).1⟩

end Lockstep
