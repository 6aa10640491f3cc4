import Lockstep.Proofs.EncodedDocuments
import Lockstep.Proofs.ParallelRuns
import Lockstep.Proofs.PrintableTexts
import Lockstep.Proofs.RaisingContinuations

/-! Malformed documents never raise. A program that only descends and compares has an answer for every document:
what is missing, of the wrong kind or unequal becomes a failure, and only its own projections and continuations can
raise, and integers that are too long to be told. -/

namespace Lockstep

namespace Value
variable {node : Value}

/-- A node has a part under a key if it is an object with this key, and at a position if it is a list with more
items than that. -/
def Has (node : Value) : Segment → Prop
  | .key name => ∃ fields, node = .object fields ∧ name ∈ fields.map (·.1)
  | .index n => ∃ items, node = .list items ∧ n < items.length

/-- In a document a lookup finds what the node has and nothing else. -/
theorem Plain.isSome_lookup_iff (h : node.Plain) (segment : Segment) :
    (node.lookup segment).isSome ↔ node.Has segment := by
  cases h with
  | @list items _ => cases segment with
    | key name =>
      refine ⟨fun h => (by cases h), ?_⟩
      rintro ⟨_, h, _⟩
      cases h
    | index n =>
      have hitem : ((Value.list items).lookup (.index n)).isSome ↔ n < items.length := by
        rw [Value.lookup, lookupIndex_list, Option.isSome_iff_ne_none, ne_eq, List.getElem?_eq_none_iff, not_le]
      rw [hitem]
      refine ⟨fun h => ⟨items, rfl, h⟩, ?_⟩
      rintro ⟨_, h, hn⟩
      cases h
      exact hn
  | @object fields _ _ => cases segment with
    | key name =>
      rw [Value.lookup, lookupKey_object, Lockstep.isSome_lookup_iff]
      refine ⟨fun h => ⟨fields, rfl, h⟩, ?_⟩
      rintro ⟨_, h, hn⟩
      cases object_injective h
      exact hn
    | index n =>
      refine ⟨fun h => (by cases h), ?_⟩
      rintro ⟨_, h, _⟩
      cases h
  | _ =>
    refine ⟨fun h => (by cases segment <;> cases h), fun h => ?_⟩
    cases segment <;> obtain ⟨_, h, _⟩ := h <;> cases h

end Value

namespace Program

/-- Programs that are assembled from descents without shapes, comparisons with encoded values, terminations, and
what is combined and sequenced of these. The projections and continuations raise nothing but these faults. -/
inductive Assembled (raises : Fault → Prop) : Program → Prop where
  | pure (result : Value) : Assembled raises (.done result)
  | key (name : String) {project : Value → Except Fault Value}
      (hproject : ∀ host fault, project host = .error fault → raises fault) :
      Assembled raises (Program.key name project)
  | nth {position : Int} {project : Value → Except Fault Value} {p : Program}
      (hproject : ∀ host fault, project host = .error fault → raises fault)
      (h : Program.nth position project = .ok p) : Assembled raises p
  | assertEqual {expected : Value} {encoder : Encoder} {p : Program}
      (hplain : ∀ document, encoder expected = .ok document → document.Plain)
      (h : Program.assertEqual expected encoder = .ok p) : Assembled raises p
  | terminate : Assembled raises .terminate
  | finalize {p q : Program} (hp : Assembled raises p) (h : p.finalize = .ok q) : Assembled raises q
  | allOf {ps : List Program} {q : Program} (hps : ∀ p ∈ ps, Assembled raises p) (h : Program.allOf ps = .ok q) :
      Assembled raises q
  | chain {ps : List Program} {q : Program} (hps : ∀ p ∈ ps, Assembled raises p) (h : Program.chain ps = .ok q) :
      Assembled raises q
  | bind {p q : Program} {k : Value → Except Fault Program} (hp : Assembled raises p)
      (hraises : ∀ result fault, k result = .error fault → raises fault)
      (hk : ∀ result r, k result = .ok r → Assembled raises r) (h : p.bind k = .ok q) : Assembled raises q

/-- The programs that can be assembled, node by node: descents declare no shape, predicates compare with a
document, and all nodes are supported. -/
inductive Comparing (raises : Fault → Prop) : Program → Prop where
  | done (result : Value) : Comparing raises (.done result)
  | descend {segment : Segment} {project : Value → Except Fault Value} {next : Value → Except Fault Program}
      (hproject : ∀ host fault, project host = .error fault → raises fault)
      (hnext : ∀ host fault, next host = .error fault → raises fault)
      (h : ∀ host p, next host = .ok p → Comparing raises p) :
      Comparing raises (.descend segment project none next)
  | check {expected : Value} {next : Program} (hplain : expected.Plain) (h : Comparing raises next) :
      Comparing raises (.check (equalTo expected) next)
  | terminate : Comparing raises .terminate
  | all {members : List Program} (h : ∀ p ∈ members, Comparing raises p) : Comparing raises (.all members)

namespace Comparing
variable {raises : Fault → Prop} {p q : Program} {k : Value → Except Fault Program}

theorem wellFormed (hp : p.Comparing raises) : p.WellFormed := by
  induction hp with
  | done result => exact .done result
  | descend _ _ _ ih => exact .descend ih
  | check _ _ ih => exact .check ih
  | terminate => exact .terminate
  | all _ ih => exact .all ih

/-- Continuing raises only what the continuation raises. -/
theorem raises_of_bind (hp : p.Comparing raises)
    (hraises : ∀ result fault, k result = .error fault → raises fault) {fault : Fault}
    (h : p.bind k = .error fault) : raises fault := by
  obtain ⟨_, result, _, _, hk, _⟩ := hp.wellFormed.bind_eq_error.1 h
  exact hraises result fault hk

theorem bind (hp : p.Comparing raises) (hraises : ∀ result fault, k result = .error fault → raises fault)
    (hk : ∀ result r, k result = .ok r → r.Comparing raises) (h : p.bind k = .ok q) : q.Comparing raises := by
  induction hp generalizing q with
  | done result => exact hk result q h
  | @descend _ _ next hproject hnext hp ih =>
    cases h
    refine .descend hproject (fun host fault hfault => ?_) fun host r hr => ?_
    · cases hn : next host with
      | error raised =>
        rw [hn] at hfault
        cases hfault
        exact hnext host fault hn
      | ok p =>
        rw [hn] at hfault
        exact (hp host p hn).raises_of_bind hraises hfault
    · cases hn : next host with
      | error raised => rw [hn] at hr; cases hr
      | ok p => rw [hn] at hr; exact ih host p hn hr
  | check hplain _ ih =>
    obtain ⟨rest, hrest, rfl⟩ := bind_check_eq_ok.1 h
    exact .check hplain (ih hrest)
  | terminate => cases h; exact .terminate
  | all _ ih =>
    obtain ⟨qs, hqs, rfl⟩ := bind_all_eq_ok.1 h
    refine .all fun r hr => ?_
    obtain ⟨p, hp, hpr⟩ := exists_of_mem_bindAll hqs r hr
    exact ih p hp hpr

theorem andThen (hp : p.Comparing raises) (hq : q.Comparing raises) {r : Program} (h : p.andThen q = .ok r) :
    r.Comparing raises :=
  hp.bind (fun _ _ hk => by cases hk) (fun _ _ hk => Except.ok.inj hk ▸ hq) h

/-- What can follow a comparing program in a run is comparing. -/
theorem of_follows (hp : p.Comparing raises) (h : Frame.Follows q p) : q.Comparing raises := by
  cases h with
  | next _ _ _ _ host _ hq => cases hp with | descend _ _ h => exact h host q hq
  | checked => cases hp with | check _ h => exact h
  | member _ _ hq => cases hp with | all h => exact h q hq

end Comparing

theorem Assembled.comparing {raises : Fault → Prop} {p : Program} (hp : p.Assembled raises) : p.Comparing raises := by
  induction hp with
  | pure result => exact .done result
  | key name hproject =>
    exact .descend hproject (fun _ _ h => by cases h) fun host _ h => Except.ok.inj h ▸ .done host
  | nth hproject h =>
    obtain ⟨n, rfl⟩ := exists_of_nth h
    exact .descend hproject (fun _ _ h => by cases h) fun host _ h => Except.ok.inj h ▸ .done host
  | assertEqual hplain h =>
    obtain ⟨document, hdocument, rfl⟩ := exists_of_assertEqual h
    exact .check (hplain document hdocument) (.done .null)
  | terminate => exact .terminate
  | finalize _ h ih => exact ih.bind (fun _ _ hk => by cases hk) (fun _ _ hk => Except.ok.inj hk ▸ .terminate) h
  | allOf _ h ih => exact eq_of_allOf h ▸ .all ih
  | chain _ h ih => exact chain_induct (.done .null) (fun _ _ _ hp hq h => hp.andThen hq h) ih h
  | bind _ hraises _ h ih ihk => exact ih.bind hraises ihk h

end Program

/-- What a comparison says of a node of a document. -/
theorem equalTo_cases {expected node : Value} (he : expected.Plain) (hn : node.Plain) :
    (node.jsonEqual expected ∧ equalTo expected node = .ok none) ∨
    (¬ node.jsonEqual expected ∧ expected.Writable ∧ node.Writable ∧ equalTo expected node =
      .ok (some (differenceText expected.canonicalText node.canonicalText))) ∨
    (¬ node.jsonEqual expected ∧ ¬ (expected.Writable ∧ node.Writable) ∧
      equalTo expected node = .error .digitLimit) := by
  by_cases hequal : node.jsonEqual expected
  · exact .inl ⟨hequal, equalTo_of_equal hequal⟩
  refine .inr ?_
  rw [equalTo_of_unequal hequal]
  by_cases hexpected : expected.Writable
  · rw [he.render_eq hexpected]
    by_cases hnode : node.Writable
    · rw [hn.render_eq hnode]
      exact .inl ⟨hequal, hexpected, hnode, rfl⟩
    · rw [hn.render_eq_digitLimit hnode]
      exact .inr ⟨hequal, fun h => hnode h.2, rfl⟩
  · rw [he.render_eq_digitLimit hexpected]
    exact .inr ⟨hequal, fun h => hexpected h.1, rfl⟩

/-- What a lookup finds can be written if the node can. -/
theorem Value.Writable.lookup {node part : Value} {segment : Segment} (hwritable : node.Writable) (hp : node.Plain)
    (h : node.lookup segment = some part) : part.Writable := by
  cases hp with
  | list => cases segment with
    | key name => cases h
    | index n => exact Value.writable_list_iff.1 hwritable part (List.mem_of_getElem? h)
  | object => cases segment with
    | key name =>
      exact Value.writable_object_iff.1 hwritable _ (mem_of_lookup ((Value.lookupKey_object _ name).symm.trans h))
    | index n => cases h
  | _ => cases segment <;> cases h

/-- So is every place of a document that can be written. -/
theorem Value.Plain.follow_writable {document node : Value} {trail : Trail} (hp : document.Plain)
    (h : document.Writable) (hnode : document.follow trail = some node) : node.Plain ∧ node.Writable := by
  induction trail generalizing node with
  | nil =>
    cases hnode
    exact ⟨hp, h⟩
  | cons segment trail ih =>
    obtain ⟨parent, hparent, hpart⟩ := Option.bind_eq_some_iff.1 hnode
    obtain ⟨hplain, hwritable⟩ := ih hparent
    exact ⟨hplain.lookup hpart, hwritable.lookup hplain hpart⟩

namespace Frame
variable {raises : Fault → Prop} {frame next : Frame} {fault : Fault}

/-- A step of a frame that calls a function of the program which raises: the projection of a descent that matched, or
its continuation. -/
inductive CallRaises (frame : Frame) (fault : Fault) : Prop where
  | projection {segment : Segment} {project : Value → Except Fault Value} {shape : Option Shape}
      {next : Value → Except Fault Program} {part : Value}
      (program_eq : frame.program = .descend segment project shape next)
      (matched : frame.node.lookup segment = some part) (raised : project frame.host = .error fault)
  | continuation {segment : Segment} {project : Value → Except Fault Value} {shape : Option Shape}
      {next : Value → Except Fault Program} {part v : Value}
      (program_eq : frame.program = .descend segment project shape next)
      (matched : frame.node.lookup segment = some part) (returned : project frame.host = .ok v)
      (raised : next v = .error fault)

/-- A step of a frame that has to tell an integer that is too long: the position of an item that is missing, or one
inside of documents that are not equal. -/
inductive Oversized (frame : Frame) : Prop where
  | position {segment : Segment} {project : Value → Except Fault Value} {shape : Option Shape}
      {next : Value → Except Fault Program} (program_eq : frame.program = .descend segment project shape next)
      (missed : frame.node.lookup segment = none) (long : ¬ segment.isWritable)
  | texts {expected : Value} {next : Program} (program_eq : frame.program = .check (equalTo expected) next)
      (plain : expected.Plain) (unequal : ¬ frame.node.jsonEqual expected)
      (long : ¬ (expected.Writable ∧ frame.node.Writable))

/-- A frame of a comparing program at a node of a document. -/
structure Answers (raises : Fault → Prop) (frame : Frame) : Prop where
  comparing : frame.program.Comparing raises
  plain : frame.node.Plain

/-- A step at a node of a document raises only where a function of the program does, or an integer is too long. -/
theorem Answers.raises_of_advance (h : frame.Answers raises) (ha : frame.advance = .raise fault) :
    (raises fault ∧ frame.CallRaises fault) ∨ (fault = .digitLimit ∧ frame.Oversized) := by
  obtain ⟨program, node, host, path⟩ := frame
  obtain ⟨hp, hnode⟩ := h
  cases hp with
  | @descend segment project next hproject hnext _ =>
    -- No shape is declared, so behind a lookup that matched there are only the two calls.
    simp only [advance] at ha
    rcases hl : node.find segment with raised | _ | part
    · simp only [hl] at ha
      cases ha
      obtain ⟨hmissed, hlong, rfl⟩ := Value.find_eq_error_iff.1 hl
      exact .inr ⟨rfl, .position rfl hmissed hlong⟩
    · simp only [hl] at ha
      cases ha
    · simp only [hl, Program.projected_none] at ha
      rw [Value.find_eq_some_iff] at hl
      cases hv : project host with
      | error raised =>
        simp only [hv] at ha
        cases ha
        exact .inl ⟨hproject host fault hv, .projection rfl hl hv⟩
      | ok v =>
        simp only [hv] at ha
        cases hn : next v with
        | error raised =>
          simp only [hn] at ha
          cases ha
          exact .inl ⟨hnext v fault hn, .continuation rfl hl hv hn⟩
        | ok p => simp only [hn] at ha; cases ha
  | @check expected next hplain _ =>
    simp only [advance] at ha
    rcases equalTo_cases hplain hnode with ⟨-, heq⟩ | ⟨-, -, -, heq⟩ | ⟨hunequal, hlong, heq⟩
    · simp only [heq] at ha
      cases ha
    · simp only [heq] at ha
      cases ha
    · simp only [heq] at ha
      cases ha
      exact .inr ⟨rfl, .texts rfl hplain hunequal hlong⟩
  | _ => cases ha

/-- A step leads from a node of a document to one, and from a comparing program to such programs. -/
theorem Answers.of_advance {following : List Frame} (h : frame.Answers raises) (ha : frame.advance = .go following)
    (hn : next ∈ following) : next.Answers raises := by
  refine ⟨h.comparing.of_follows (follows_of_advance ha next hn), ?_⟩
  rcases go_cases ha with ⟨segment, project, shape, k, part, v, p, -, hpart, -, rfl⟩ | ⟨-, hsame⟩
  · cases List.mem_singleton.1 hn
    exact h.plain.lookup hpart
  · rw [(hsame next hn).1]
    exact h.plain

private theorem Answers.of_descends {start : Frame} {descents : List Descent} (h : start.Answers raises)
    (hd : Descends start descents frame) : frame.Answers raises := by
  induction hd with
  | start => exact h
  | step _ ha hn ih => exact ih.of_advance ha hn

/-- A descent into a part that the node does not have fails. -/
theorem Answers.failure?_descend (h : frame.Answers raises) (hfits : ¬ frame.Oversized) {segment : Segment}
    {project : Value → Except Fault Value} {shape : Option Shape} {next : Value → Except Fault Program}
    (hp : frame.program = .descend segment project shape next) (hmissing : ¬ frame.node.Has segment) :
    frame.failure? = some (.missing frame.path segment) := by
  have hlookup : frame.node.lookup segment = none := by
    rw [← Option.not_isSome_iff_eq_none, h.plain.isSome_lookup_iff]
    exact hmissing
  have hwritable : segment.isWritable := by
    by_contra hlong
    exact hfits (.position hp hlookup hlong)
  simp only [failure?, advance, hp, Value.find_eq_none_iff.2 ⟨hlookup, hwritable⟩]

/-- A check compares with a document, and fails where the node is not equal to it. -/
theorem Answers.failure?_check (h : frame.Answers raises) {predicate : Value → Except Fault (Option String)}
    {next : Program} (hp : frame.program = .check predicate next) :
    ∃ expected : Value, expected.Plain ∧ predicate = equalTo expected ∧
      (¬ frame.Oversized → frame.node.jsonEqual expected = false → ∃ e g, expected.render = .ok e ∧
        frame.node.render = .ok g ∧ frame.failure? = some (.rejected frame.path (differenceText e g))) := by
  have hcomparing := h.comparing
  rw [hp] at hcomparing
  cases hcomparing with
  | @check expected _ hplain _ =>
    refine ⟨expected, hplain, rfl, fun hfits hunequal => ?_⟩
    rw [← Bool.not_eq_true] at hunequal
    have hwritable : expected.Writable ∧ frame.node.Writable := by
      by_contra hlong
      exact hfits (.texts hp hplain hunequal hlong)
    have he := hplain.render_eq hwritable.1
    have hg := h.plain.render_eq hwritable.2
    refine ⟨_, _, he, hg, ?_⟩
    simp only [failure?, advance, hp, equalTo_eq_some_iff.2 ⟨hunequal, _, _, he, hg, rfl⟩]

end Frame

/-- The two forms of messages about documents: nothing is found at a place, or the node at a place is not equal to a
document, with the texts of both, each on one line. -/
inductive DocumentMessage (root text : String) : Prop where
  | missed (trail : Trail) (h : text = Trail.label root trail ++ " failed to match any targets")
  | unequal (trail : Trail) {expected node : Value} {e g : String} (hequal : node.jsonEqual expected = false)
      (he : expected.render = .ok e) (hg : node.render = .ok g) (eline : Printable e.toList)
      (gline : Printable g.toList)
      (h : text = Trail.label root trail ++ " failed assertion\n" ++ ("Expected: " ++ e ++ "\n     Got: " ++ g))

private theorem Frame.Explains.documentMessage {raises : Fault → Prop} {options : RunOptions} {frame : Frame}
    {trail : Trail} {text : String} (h : frame.Explains options trail text) (hframe : frame.Answers raises) :
    DocumentMessage options.rootLabel text := by
  cases h with
  | @rejected predicate next message hp hm ht =>
    obtain ⟨expected, hplain, rfl, -⟩ := hframe.failure?_check hp
    obtain ⟨hunequal, e, g, he, hg, rfl⟩ := equalTo_eq_some_iff.1 hm
    obtain ⟨-, rfl⟩ := hplain.render_eq_ok_iff.1 he
    obtain ⟨-, rfl⟩ := hframe.plain.render_eq_ok_iff.1 hg
    exact .unequal trail (Bool.eq_false_iff.2 hunequal) he hg hplain.printable_canonicalText
      hframe.plain.printable_canonicalText ht
  | missingKey _ _ ht => exact .missed _ ht
  | missingIndex _ _ ht => exact .missed _ ht

private theorem Trail.exists_label_eq (root : String) (trail : Trail) :
    ∃ rest, Trail.label root trail = root ++ rest := by
  induction trail with
  | nil => exact ⟨"", String.append_empty.symm⟩
  | cons segment trail ih =>
    obtain ⟨rest, hrest⟩ := ih
    exact ⟨rest ++ segment.text, by rw [Trail.label, hrest, String.append_assoc]⟩

private theorem DocumentMessage.exists_eq {root text : String} (h : DocumentMessage root text) :
    ∃ rest, text = root ++ rest := by
  cases h with
  | missed trail ht =>
    obtain ⟨rest, hrest⟩ := trail.exists_label_eq root
    exact ⟨_, by rw [ht, hrest, String.append_assoc]⟩
  | unequal trail _ _ _ _ _ ht =>
    obtain ⟨rest, hrest⟩ := trail.exists_label_eq root
    exact ⟨_, by rw [ht, hrest, String.append_assoc, String.append_assoc]⟩

/-- Each frame that a run of an assembled program takes compares a node of the document. -/
theorem Program.Assembled.exists_inStep {raises : Fault → Prop} {program : Program}
    (hprogram : program.Assembled raises) {document : Value} (hdocument : document.Plain) {host : Value} {root : String} {frame : Frame}
    (hframe : frame ∈ takenFrames [⟨program, document, host, root⟩]) :
    ∃ descents, frame.Answers raises ∧ frame.InStep root document host descents := by
  have hstart : Frame.Answers raises ⟨program, document, host, root⟩ := ⟨hprogram.comparing, hdocument⟩
  obtain ⟨first, hfirst, descents, hd⟩ := descends_of_mem_takenFrames _ frame hframe
  cases List.mem_singleton.1 hfirst
  exact ⟨descents, hstart.of_descends hd, hd.inStep⟩

/-- Malformed documents never raise. Unless a projection or a continuation raises behind a descent that matched, or an
integer that is too long has to be told, a run of an assembled program answers with messages, one for every descent
and every comparison that the document fails. -/
theorem malformed_documents_answered {raises : Fault → Prop} {program : Program} (hprogram : program.Assembled raises)
    {document : Value} (hdocument : document.Plain) (host : Value) (options : RunOptions) :
    let run := (interpret options program document host).messages options
    let frames := takenFrames [⟨program, document, host, options.rootLabel⟩]
    (∀ fault, run = .error fault → ∃ frame ∈ frames,
      (raises fault ∧ frame.CallRaises fault) ∨ (fault = .digitLimit ∧ frame.Oversized)) ∧
    (document.Writable → ∀ frame ∈ frames, frame.node.Writable) ∧
    ((∀ fault, ¬ raises fault) → (∀ frame ∈ frames, ¬ frame.Oversized) → ∃ texts, run = .ok texts ∧
      (∀ frame ∈ frames, ∀ segment project shape next, frame.program = .descend segment project shape next →
        ¬ frame.node.Has segment → Program.missMessage options frame.path segment ∈ texts) ∧
      (∀ frame ∈ frames, ∀ predicate next, frame.program = .check predicate next →
        ∃ expected : Value, expected.Plain ∧ predicate = equalTo expected ∧
          (frame.node.jsonEqual expected = false → ∃ e g, expected.render = .ok e ∧ frame.node.render = .ok g ∧
            frame.path ++ " failed assertion\n" ++ differenceText e g ∈ texts)) ∧
      ∀ text ∈ texts, (∃ rest, text = options.rootLabel ++ rest) ∧ DocumentMessage options.rootLabel text) := by
  intro run frames
  have hframes : ∀ frame ∈ frames, ∃ descents, frame.Answers raises ∧
      frame.InStep options.rootLabel document host descents := fun _ => hprogram.exists_inStep hdocument
  have hraises : ∀ fault, run = .error fault → ∃ frame ∈ frames,
      (raises fault ∧ frame.CallRaises fault) ∨ (fault = .digitLimit ∧ frame.Oversized) := by
    intro fault hfault
    obtain ⟨frame, hframe, ha⟩ := exists_raise_of_fault? _ [] (Report.messages_eq_error.1 hfault)
    obtain ⟨_, hanswers, -⟩ := hframes frame hframe
    exact ⟨frame, hframe, hanswers.raises_of_advance ha⟩
  have hwritable (h : document.Writable) : ∀ frame ∈ frames, frame.node.Writable := by
    intro frame hframe
    obtain ⟨descents, -, hstep⟩ := hframes frame hframe
    exact (hdocument.follow_writable h hstep.follow_eq).2
  refine ⟨hraises, hwritable, fun hsilent hfits => ?_⟩
  have hfound : (interpret options program document host).found = frames.filterMap Frame.failure? :=
    found_runFrames _ []
  have hnone : (interpret options program document host).fault? = none := by
    rw [Option.eq_none_iff_forall_ne_some]
    intro fault hfault
    obtain ⟨frame, hframe, ⟨hcall, -⟩ | ⟨-, hlong⟩⟩ := hraises fault (Report.messages_eq_error.2 hfault)
    · exact hsilent fault hcall
    · exact hfits frame hframe hlong
  have hlisted {frame : Frame} {failure : Failure} (hframe : frame ∈ frames) (hf : frame.failure? = some failure) :
      failure.text options ∈ (interpret options program document host).found.map (Failure.text options) := by
    rw [hfound]
    exact List.mem_map_of_mem (List.mem_filterMap.2 ⟨frame, hframe, hf⟩)
  refine ⟨_, Report.messages_eq_ok.2 ⟨hnone, rfl⟩, ?_, ?_, ?_⟩
  · intro frame hframe segment project shape next hp hmissing
    obtain ⟨_, hanswers, -⟩ := hframes frame hframe
    rw [← Program.text_missing]
    exact hlisted hframe (hanswers.failure?_descend (hfits frame hframe) hp hmissing)
  · intro frame hframe predicate next hp
    obtain ⟨_, hanswers, -⟩ := hframes frame hframe
    obtain ⟨expected, hplain, hpredicate, hfails⟩ := hanswers.failure?_check hp
    refine ⟨expected, hplain, hpredicate, fun hunequal => ?_⟩
    obtain ⟨e, g, he, hg, hf⟩ := hfails (hfits frame hframe) hunequal
    refine ⟨e, g, he, hg, ?_⟩
    rw [String.append_assoc]
    exact hlisted hframe hf
  · intro text htext
    obtain ⟨failure, hfailure, rfl⟩ := List.mem_map.1 htext
    rw [hfound] at hfailure
    obtain ⟨frame, hframe, hf⟩ := List.mem_filterMap.1 hfailure
    obtain ⟨descents, hanswers, hstep⟩ := hframes frame hframe
    have hmessage := (hstep.explains hf).documentMessage hanswers
    exact ⟨hmessage.exists_eq, hmessage⟩

theorem malformed_documents_answered_nan :
    ∃ item same program, Program.nth 0 = .ok item ∧ Program.assertEqual (.float .nan) = .ok same ∧
      Program.allOf [.key "name", item, same] = .ok program ∧ program.Assembled (fun _ => False) ∧
      ∃ texts, (interpret {} program (.float .nan) .null).messages {} = .ok texts ∧
        "subject[\"name\"] failed to match any targets" ∈ texts ∧
        "subject failed to match any targets" ∈ texts := by
  let name : Program := .key "name"
  let item : Program := .descend (.index 0) .ok none fun host => .ok (.done host)
  let same : Program := .require (equalTo (.float .nan))
  let program : Program := .all [name, item, same]
  have hitem : Program.nth 0 = .ok item := rfl
  have hsame : Program.assertEqual (.float .nan) = .ok same := rfl
  have hassembled : program.Assembled fun _ => False := by
    have hproject (host : Value) (fault : Fault) : (Except.ok host : Except Fault Value) ≠ .error fault := by simp
    have hmembers : ∀ p ∈ [name, item, same], p.Assembled fun _ => False := by
      simpa using ⟨.key "name" hproject, .nth hproject hitem, .assertEqual (fun _ => Value.encodeAt_plain) hsame⟩
    exact .allOf hmembers rfl
  let frame (p : Program) : Frame := ⟨p, .float .nan, .null, "subject"⟩
  have hcompared : equalTo (.float .nan) (.float .nan) = .ok (some (differenceText "NaN" "NaN")) := by
    have hunequal : ¬ (Value.float .nan).jsonEqual (.float .nan) := by decide +kernel
    exact equalTo_eq_some_iff.2 ⟨hunequal, "NaN", "NaN", by decide, by decide, rfl⟩
  have hframes : takenFrames [frame program] = [frame program, frame name, frame item, frame same] := by
    have hfail : (frame same).advance = .fail (.rejected "subject" (differenceText "NaN" "NaN")) := by
      simp only [Frame.advance, frame, same, Program.require, hcompared]
    rw [takenFrames_go rfl, pushFrames_eq_append]
    change _ :: takenFrames [frame name, frame item, frame same] = _
    rw [takenFrames_fail rfl, takenFrames_fail rfl, takenFrames_fail hfail, takenFrames]
  have hfits : ∀ f ∈ takenFrames [frame program], ¬ f.Oversized := by
    simp only [hframes, List.forall_mem_cons]
    refine ⟨?_, ?_, ?_, ?_, List.forall_mem_nil _⟩
    · rintro (⟨⟨⟩⟩ | ⟨⟨⟩⟩)
    · rintro (⟨⟨⟩, -, hlong⟩ | ⟨⟨⟩⟩)
      exact hlong rfl
    · rintro (⟨⟨⟩, -, hlong⟩ | ⟨⟨⟩⟩)
      exact hlong (by decide)
    · rintro (⟨⟨⟩⟩ | ⟨heq, hplain, -, hlong⟩)
      have hpredicate := congrFun (Program.check.inj heq).1 (.float .nan)
      obtain ⟨-, e, g, he, hg, -⟩ := equalTo_eq_some_iff.1 (hpredicate.symm.trans hcompared)
      exact hlong ⟨(hplain.render_eq_ok_iff.1 he).1, ((Value.Plain.float .nan).render_eq_ok_iff.1 hg).1⟩
  obtain ⟨-, -, hanswers⟩ := malformed_documents_answered hassembled (.float .nan) .null {}
  obtain ⟨texts, hrun, hmissing, -, -⟩ := hanswers (fun _ => id) hfits
  have hmatch (segment : Segment) : ¬ (Value.float .nan).Has segment := by
    rw [← (Value.Plain.float .nan).isSome_lookup_iff]
    cases segment <;> exact Bool.false_ne_true
  have hname : frame name ∈ takenFrames [frame program] := by simp [hframes]
  have hposition : frame item ∈ takenFrames [frame program] := by simp [hframes]
  exact ⟨item, same, program, hitem, hsame, rfl, hassembled, texts, hrun,
    hmissing _ hname _ _ _ _ rfl (hmatch _), hmissing _ hposition _ _ _ _ rfl (hmatch _)⟩

end Lockstep
