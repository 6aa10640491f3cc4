import Lockstep.Proofs.BindLaws
import Lockstep.Proofs.EncodedDocuments
import Lockstep.Proofs.FrameTrails
import Lockstep.Run.Check
import Lockstep.Script.Operation

/-! Walks that follow the structure of their host value. A segment that leads from a host value to one of its
parts leads from the encoding of the value to the encoding of the part. So such a walk arrives, and the node
where it arrives equals the encoding of the host value it has projected. -/

namespace Lockstep

namespace Value

/-- A segment leads from a host value to one of its parts: to an item of a sequence, to the value of a
dictionary all of whose keys are texts, or to a field of a record under the name it is encoded under. Of
several fields that are encoded under one name it leads to the last. -/
inductive LeadsTo : Value → Segment → Value → Prop where
  | item {kind : SequenceKind} {items : List Value} {n : Nat} {v : Value} (h : items[n]? = some v) :
      LeadsTo (.sequence kind items) (.index n) v
  | entry {fields : List (String × Value)} {name : String} {v : Value} (distinct : (fields.map (·.1)).Nodup)
      (h : (name, v) ∈ fields) : LeadsTo (.object fields) (.key name) v
  | field {cls : RecordClass} {before after : List (String × Value)} {f : String × Value} {name : String}
      (hname : cls.encodedName? f.1 = some name) (hlast : ∀ g ∈ after, cls.encodedName? g.1 ≠ some name) :
      LeadsTo (.record cls (before ++ f :: after)) (.key name) f.2

theorem LeadsTo.part {host v : Value} {segment : Segment} (h : host.LeadsTo segment v) : host.Part v := by
  cases h with
  | item h => exact .item (List.mem_of_getElem? h)
  | entry _ h => exact .entry (e := (.text _, _)) (List.mem_map_of_mem h)
  | field => exact .field (List.mem_append_right _ List.mem_cons_self)

section Fields
variable {R : Value → Value → Prop} {es fs : List (String × Value)} {name : String}

private theorem lookup_rel_of_forall₂ (h : List.Forall₂ (fun e f => e.1 = f.1 ∧ R e.2 f.2) es fs) (name : String) :
    Option.Rel R (es.lookup name) (fs.lookup name) := by
  induction h with
  | nil => exact .none
  | @cons e f es fs hef _ ih =>
    obtain ⟨hname, hR⟩ := hef
    rw [List.lookup_cons, List.lookup_cons, hname]
    cases name == f.1
    · exact ih
    · exact .some hR

/-- Of fields that match one by one, the last of one name match, too. -/
theorem exists_lookup_dictOf (h : List.Forall₂ (fun e f => e.1 = f.1 ∧ R e.2 f.2) es fs) {v : Value}
    (hv : es.reverse.lookup name = some v) :
    ∃ d, (dictOf (fs.map fun f => (.text f.1, f.2))).lookup (.key name) = some d ∧ R v d := by
  obtain ⟨gs, hgs, -, hlookup⟩ := exists_dictOf fs
  have hrel := lookup_rel_of_forall₂ (List.rel_reverse h) name
  rw [hgs, lookup, lookupKey_object, hlookup]
  rw [hv] at hrel
  generalize fs.reverse.lookup name = found at hrel
  cases hrel with
  | some hR => exact ⟨_, rfl, hR⟩

end Fields

private theorem lookup_encoded_last {cls : RecordClass} {before after : List (String × Value)} {f : String × Value}
    {name : String} (hname : cls.encodedName? f.1 = some name)
    (hlast : ∀ g ∈ after, cls.encodedName? g.1 ≠ some name) :
    (cls.encoded (before ++ f :: after)).reverse.lookup name = some f.2 := by
  have hafter : (cls.encoded after).reverse.lookup name = none := by
    rw [List.lookup_eq_none_iff]
    intro e he
    obtain ⟨g, hg, heg⟩ := List.mem_filterMap.1 (List.mem_reverse.1 he)
    obtain ⟨n, hn, rfl⟩ := Option.map_eq_some_iff.1 heg
    have hne : name ≠ n := fun hname => hlast g hg (hname ▸ hn)
    simpa using hne
  have hsplit : cls.encoded (before ++ f :: after) = cls.encoded before ++ (name, f.2) :: cls.encoded after := by
    rw [RecordClass.encoded, List.filterMap_append, List.filterMap_cons, hname]
    rfl
  rw [hsplit, List.reverse_append, List.reverse_cons, List.append_assoc, List.lookup_append, hafter]
  simp

/-- Where a segment leads to a part of a host value, it leads to the encoding of that part. -/
theorem LeadsTo.encoded {host v d : Value} {segment : Segment} {name : String} {level : Nat}
    (h : host.LeadsTo segment v) (hd : encodeAt name level host = .ok d) :
    ∃ part, d.lookup segment = some part ∧ encodeAt name (level + 1) v = .ok part := by
  cases h with
  | @item kind items n v h =>
    obtain ⟨-, -, ds, hds, rfl⟩ := encodeAt_sequence_eq_ok_iff.1 hd
    have hrel := getElem?_rel hds n
    rw [lookup, lookupIndex_list]
    rw [h] at hrel
    generalize ds[n]? = found at hrel
    cases hrel with
    | some hpart => exact ⟨_, rfl, hpart⟩
  | @entry fields key v distinct h =>
    obtain ⟨-, fs, hfs, rfl⟩ := encodeAt_dict_eq_ok_iff.1 hd
    have hfields : List.Forall₂ (fun e f => e.1 = f.1 ∧ encodeAt name (level + 1) e.2 = .ok f.2) fields fs :=
      (List.forall₂_map_left_iff.1 hfs).imp fun e f hf => ⟨Except.ok.inj hf.1, hf.2⟩
    refine exists_lookup_dictOf (R := fun v d => encodeAt name (level + 1) v = .ok d) hfields
      ((lookup_eq_some_iff_mem ?_).2 (List.mem_reverse.2 h))
    rw [List.map_reverse]
    exact List.nodup_reverse.2 distinct
  | field hname hlast =>
    obtain ⟨-, fs, hfs, rfl⟩ := encodeAt_record_eq_ok_iff.1 hd
    exact exists_lookup_dictOf (R := fun v d => encodeAt name (level + 1) v = .ok d) hfs
      (lookup_encoded_last hname hlast)

end Value

/-- Descents that follow the structure of a host value: each projects the part that its segment leads to. -/
inductive Faithful : Value → List Descent → Value → Prop where
  | stay (host : Value) : Faithful host [] host
  | go {host part v : Value} {d : Descent} {descents : List Descent} (hpart : host.LeadsTo d.segment part)
      (hproject : d.project host = .ok part) (h : Faithful part descents v) : Faithful host (d :: descents) v

namespace Faithful
variable {host v doc : Value} {descents : List Descent}

private theorem append_iff {first next : List Descent} :
    Faithful host (first ++ next) v ↔ ∃ u, Faithful host first u ∧ Faithful u next v := by
  induction first generalizing host with
  | nil =>
    refine ⟨fun h => ⟨host, .stay host, h⟩, ?_⟩
    rintro ⟨u, h, hnext⟩
    cases h
    exact hnext
  | cons d first ih =>
    constructor
    · intro h
      cases h with
      | go hpart hproject h =>
        obtain ⟨u, hfirst, hnext⟩ := ih.1 h
        exact ⟨u, .go hpart hproject hfirst, hnext⟩
    · rintro ⟨u, h, hnext⟩
      cases h with
      | go hpart hproject h => exact .go hpart hproject (ih.2 ⟨u, h, hnext⟩)

theorem holds (h : Faithful host descents v) : host.Holds v := by
  induction h with
  | stay host => exact .refl
  | go hpart _ _ ih => exact .head hpart.part ih

/-- The part of the encoding that the segments lead to is the encoding of the value that is projected. -/
theorem encoded (h : Faithful host descents v) (hdoc : host.encode = .ok doc) :
    ∃ part, doc.follow (trailOf descents.reverse) = some part ∧ v.encode = .ok part := by
  induction h generalizing doc with
  | stay host => exact ⟨doc, rfl, hdoc⟩
  | @go host part v d descents hpart _ _ ih =>
    obtain ⟨node, hlookup, hnode⟩ := hpart.encoded hdoc
    obtain ⟨target, hfollow, htarget⟩ := ih (Value.encodeAt_of_le hnode (Nat.zero_le _))
    refine ⟨target, ?_, htarget⟩
    have htrail : trailOf (d :: descents).reverse = trailOf descents.reverse ++ [d.segment] := by
      simp [trailOf]
    rw [htrail, Value.follow_append, Value.follow, Value.follow, Option.bind_some, hlookup]
    exact hfollow

end Faithful

/-- The program of one descent, which ends with the projected host value. -/
def Descent.program (d : Descent) : Except Fault Program :=
  match d.segment with
  | .key name => .ok (.key name d.project)
  | .index n => Program.nth n d.project

/-- One or more descents, joined one after another in any way. -/
inductive Joined where
  | descent (d : Descent)
  | andThen (first next : Joined)

namespace Joined

/-- The descents in order. -/
def descents : Joined → List Descent
  | .descent d => [d]
  | .andThen first next => first.descents ++ next.descents

def program : Joined → Except Fault Program
  | .descent d => d.program
  | .andThen first next => do
    let p ← first.program
    let q ← next.program
    p.andThen q

open Program

private theorem program_descent (d : Descent) :
    (descent d).program = .ok (.descend d.segment d.project none fun host => .ok (.done host)) := by
  obtain ⟨segment, project⟩ := d
  cases segment <;> rfl

/-- Joined descents are a program that begins with a descent. -/
theorem exists_program (w : Joined) : ∃ segment project shape next,
    w.program = .ok (.descend segment project shape next) ∧
      (Program.descend segment project shape next).WellFormed := by
  induction w with
  | descent d =>
    exact ⟨_, _, _, _, program_descent d, .descend fun host _ h => Except.ok.inj h ▸ .done host⟩
  | andThen first next ihf ihn =>
    obtain ⟨segment, project, shape, next', hp, hwf⟩ := ihf
    obtain ⟨segment', project', shape', next'', hq, hwf'⟩ := ihn
    have hproper : Proper fun _ => .ok (.descend segment' project' shape' next'') := fun _ => ⟨_, rfl, hwf'⟩
    refine ⟨segment, project, shape, _, ?_, hwf.of_bind hproper rfl⟩
    rw [program, hp, hq]
    rfl

/-- Continued joined descents arrive where they lead, and go on from there with the value projected last. -/
theorem walk_bind {w : Joined} {p q : Program} {k : Value → Except Fault Program} {host node v : Value}
    (hp : w.program = .ok p) (hfaithful : Faithful host w.descents v) (hnode : host.encode = .ok node)
    (hq : p.bind k = .ok q) (path : String) :
    ∃ part arrived, v.encode = .ok part ∧ walk node host path q = walkNext part v arrived (k v) := by
  -- The continuation is general, since the first of two joined walks goes on with the second.
  induction w generalizing p q k host node v path with
  | descent d =>
    cases (program_descent d).symm.trans hp
    cases hfaithful with
    | go hpart hproject h =>
      cases h
      obtain ⟨part, hlookup, hencode⟩ := hpart.encoded hnode
      refine ⟨part, path ++ d.segment.text, Value.encodeAt_of_le hencode (Nat.zero_le _), ?_⟩
      have hprojected : projected (path ++ d.segment.text) d.project none host = .ok v := by
        rw [projected, hproject]
        rfl
      cases hq
      rw [walk, Value.find_eq_some_iff.2 hlookup, hprojected]
      rfl
  | andThen first next ihf ihn =>
    obtain ⟨u, hfirst, hnext⟩ := Faithful.append_iff.1 hfaithful
    obtain ⟨_, _, _, _, hpf, hwf⟩ := first.exists_program
    obtain ⟨_, _, _, _, hpn, -⟩ := next.exists_program
    rw [program, hpf, hpn] at hp
    have hbind := (hwf.bind_bind (g := k) (fun _ => ⟨_, rfl⟩) hp).symm.trans hq
    obtain ⟨part, arrived, hpart, hwalk⟩ := ihf hpf hfirst hnode hbind path
    obtain ⟨part', arrived', hpart', hwalk'⟩ := ihn hpn hnext hpart rfl arrived
    exact ⟨part', arrived', hpart', hwalk.trans hwalk'⟩

end Joined

/-- Descents that follow the structure of a host value without undefined numbers, joined in any way and followed
by a comparison with the value projected last, pass on the fresh encoding of that host value: the part of the
encoding that they lead to is the encoding of the value that they project. -/
theorem runTest_faithful {w : Joined} {host v doc : Value} (hdoc : host.encode = .ok doc)
    (hnan : ¬ host.Holds (.float .nan)) (h : Faithful host w.descents v) :
    ∃ p q, w.program = .ok p ∧ p.bind (fun result => Program.assertEqual result) = .ok q ∧
      (∀ options, runTest q host Value.encode options = .ok .empty) ∧
      ∃ part, doc.follow (trailOf w.descents.reverse) = some part ∧ v.encode = .ok part := by
  obtain ⟨segment, project, shape, next, hp, -⟩ := w.exists_program
  refine ⟨_, _, hp, rfl, fun options => ?_, h.encoded hdoc⟩
  obtain ⟨part, arrived, hpart, hwalk⟩ :=
    Joined.walk_bind (k := fun result => Program.assertEqual result) hp h hdoc rfl options.rootLabel
  have hequal : part.jsonEqual part :=
    Value.encodeAt_jsonEqual_self hpart fun hh => hnan (h.holds.trans hh)
  have haccepted : equalTo part part = .ok none := by rw [equalTo, if_pos hequal]
  rw [runTest, hdoc, Except.map, interpret_eq_walk, hwalk, Program.assertEqual, hpart, Except.map,
    Program.walkNext, Program.require, Program.walk, haccepted]
  rfl

theorem runTest_faithful_balances :
    let cls : RecordClass := { name := "Account", renamed := [("balance", "accountBalance")], hidden := ["pin"] }
    let host : Value := .record cls [("balance", .sequence .tuple [.int 3, .int 5]), ("pin", .knot .list)]
    let w : Joined := .andThen
      (.descent ⟨.key "accountBalance", Script.project [.attr "balance"]⟩)
      (.descent ⟨.index 1, Script.project [.item (.int 1)]⟩)
    host.encode = .ok (.object [("accountBalance", .list [.int 3, .int 5])]) ∧
    ¬ host.Holds (.float .nan) ∧ Faithful host w.descents (.int 5) ∧
    ∃ p q, w.program = .ok p ∧ p.bind (fun result => Program.assertEqual result) = .ok q ∧
      runTest q host = .ok .empty := by
  intro cls host w
  have hdoc : host.encode = .ok (.object [("accountBalance", .list [.int 3, .int 5])]) := rfl
  have hnan : ¬ host.Holds (.float .nan) := by
    intro h
    change (Value.record cls [("balance", .sequence .tuple [.int 3, .int 5]), ("pin", .knot .list)]).Holds _ at h
    obtain h | ⟨v, hfield, h⟩ := h.cases_head
    · cases h
    cases hfield with
    | field hfield =>
      simp only [List.mem_cons, List.not_mem_nil, or_false] at hfield
      obtain rfl | rfl := hfield
      · obtain h | ⟨n, hitem, h⟩ := h.cases_head
        · cases h
        cases hitem with
        | item hitem =>
          simp only [List.mem_cons, List.not_mem_nil, or_false] at hitem
          obtain rfl | rfl := hitem <;> obtain h | ⟨_, ⟨⟩, -⟩ := h.cases_head <;> cases h
      · obtain h | ⟨_, ⟨⟩, -⟩ := h.cases_head
        cases h
  have hbalance : host.LeadsTo (.key "accountBalance") (.sequence .tuple [.int 3, .int 5]) :=
    @Value.LeadsTo.field cls [] [("pin", .knot .list)] ("balance", _) _ rfl (by decide)
  have hfaithful : Faithful host w.descents (.int 5) := .go hbalance rfl (.go (.item rfl) rfl (.stay _))
  obtain ⟨p, q, hp, hq, hrun, -⟩ := runTest_faithful hdoc hnan hfaithful
  exact ⟨hdoc, hnan, hfaithful, p, q, hp, hq, hrun _⟩

end Lockstep
