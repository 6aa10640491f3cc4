import Lockstep.Proofs.CommandEndings

/-! Where encoding fails. The encoder goes through a value from the outside to the inside and from the front to the
back, and raises the fault of the first place that cannot be encoded for what it is. Only objects without an
encoding are reported as such. -/

namespace Lockstep

/-- A place that the encoder comes to: a value at a level, or a value in the key of a dictionary. -/
inductive Visit where
  | value (level : Nat) (v : Value)
  | key (v : Value)

/-- What stands against a text for these bytes. -/
def undecodable? (data : List UInt8) : Option Fault :=
  if (String.fromUTF8? ⟨data.toArray⟩).isSome then none else some .invalidUtf8

/-- What stands against a text for an integer. -/
def unwritable? (n : Int) : Option Fault := if isWritable n then none else some .digitLimit

/-- Of the scalars that become their text only fractions may have none. -/
def Atom.obstacle? : Atom → Option Fault
  | .fraction q => (unwritable? q.num).or (unwritable? q.den)
  | _ => none

/-- What stands against encoding a value for what it is. Its parts are places of their own. -/
def Value.obstacle? (host : String) : Value → Option Fault
  | .bytes _ data => undecodable? data
  | .atom a => a.obstacle?
  | .sequence .range _ => some (.unencodable host "range")
  | .foreign object => some (.unencodable host object.qualifiedName)
  | .knot _ => some .nestingLimit
  | _ => none

/-- What stands against a text for a value in a key. Of the containers only tuples have one. -/
def Value.keyObstacle? (host : String) : Value → Option Fault
  | .int n => unwritable? n
  | .bytes _ data => undecodable? data
  | .atom a => a.obstacle?
  | .sequence .tuple _ => none
  | .sequence (.named ..) _ => none
  | .sequence .range _ => some (.unencodable host "range")
  | .sequence .. => some .keyWithoutText
  | .set .. => some .keyWithoutText
  | .dict _ => some .keyWithoutText
  | .record .. => some .keyWithoutText
  | .foreign object => some (.unencodable host object.qualifiedName)
  | .knot _ => some .keyWithoutText
  | _ => none

/-- Why the encoder cannot go on at a place. Too deep a level is what it sees first. -/
def Visit.obstacle? (host : String) : Visit → Option Fault
  | .value level v => if deepestLevel < level then some .nestingLimit else v.obstacle? host
  | .key v => v.keyObstacle? host

namespace Value

mutual

/-- The places in the key of a dictionary, in the order in which they are come to. -/
def keyVisits : Value → List Visit
  | .sequence kind items => .key (.sequence kind items) :: keyVisitsOfItems items
  | .member cls name value => .key (.member cls name value) :: keyVisits value
  | v => [.key v]

def keyVisitsOfItems : List Value → List Visit
  | [] => []
  | x :: xs => keyVisits x ++ keyVisitsOfItems xs

end

mutual

/-- The places in a value at the given level, in the order in which they are come to: the value itself first, then
its parts, and of an entry the key before the value. -/
def visits (level : Nat) : Value → List Visit
  | .sequence kind items => .value level (.sequence kind items) :: visitsOfItems (level + 1) items
  | .set frozen items => .value level (.set frozen items) :: visitsOfItems (level + 1) items
  | .dict entries => .value level (.dict entries) :: visitsOfEntries (level + 1) entries
  | .member cls name value => .value level (.member cls name value) :: visits (level + 1) value
  | .record cls fields => .value level (.record cls fields) :: visitsOfFields (level + 1) cls fields
  | v => [.value level v]

def visitsOfItems (level : Nat) : List Value → List Visit
  | [] => []
  | x :: xs => visits level x ++ visitsOfItems level xs

def visitsOfEntries (level : Nat) : List (Value × Value) → List Visit
  | [] => []
  | (k, v) :: es => keyVisits k ++ (visits level v ++ visitsOfEntries level es)

/-- A hidden field is not come to. -/
def visitsOfFields (level : Nat) (cls : RecordClass) : List (String × Value) → List Visit
  | [] => []
  | (f, v) :: fs => match cls.encodedName? f with
    | none => visitsOfFields level cls fs
    | some _ => visits level v ++ visitsOfFields level cls fs

end

end Value

section FaultOf
variable {α β γ : Type}

private theorem faultOf_map (f : α → β) (x : Except Fault α) : faultOf (x.map f) = faultOf x := by cases x <;> rfl

/-- The first fault of two results that are put together. -/
theorem faultOf_pair (x : Except Fault α) (y : Except Fault β) (f : α → β → γ) :
    faultOf (do let a ← x; let b ← y; pure (f a b)) = (faultOf x).or (faultOf y) := by
  cases x <;> cases y <;> rfl

private theorem faultOf_atLevel (level : Nat) (x : Except Fault α) :
    faultOf (atLevel level x) = if deepestLevel < level then some .nestingLimit else faultOf x := by
  rw [atLevel]
  split <;> rfl

private theorem faultOf_textOfBytes (data : List UInt8) : faultOf (textOfBytes data) = undecodable? data := by
  rw [textOfBytes, undecodable?]
  cases String.fromUTF8? ⟨data.toArray⟩ <;> rfl

private theorem faultOf_writeInt (n : Int) : faultOf (writeInt n) = unwritable? n := by
  rw [writeInt, unwritable?]
  split <;> rfl

private theorem faultOf_text (a : Atom) : faultOf a.text = a.obstacle? := by
  cases a with
  | fraction q =>
    rw [Atom.text, Atom.obstacle?, fractionText, ← faultOf_writeInt, ← faultOf_writeInt]
    split
    · rename_i hone
      rw [hone]
      exact (Option.or_none ..).symm
    · exact faultOf_pair ..
  | _ => rfl

end FaultOf

namespace Value
variable {host : String} {level : Nat}

/-- A key has a text exactly if nothing stands against any of its places, and otherwise the first obstacle is
raised. -/
theorem faultOf_keyText (v : Value) :
    faultOf (keyText host v) = v.keyVisits.findSome? (Visit.obstacle? host) := by
  induction v using induct with
  | sequence kind items ih =>
    have hitems : faultOf (keyTexts host items) = (keyVisitsOfItems items).findSome? (Visit.obstacle? host) := by
      induction items with
      | nil => rfl
      | cons x xs ihx =>
        obtain ⟨hx, hxs⟩ := List.forall_mem_cons.1 ih
        rw [keyTexts, keyVisitsOfItems, List.findSome?_append, faultOf_pair, hx, ihx hxs]
    rw [keyText.eq_def, keyVisits, List.findSome?_cons]
    cases kind with
    | tuple => exact (faultOf_map _ _).trans hitems
    | named cls fields => exact (faultOf_map _ _).trans hitems
    | _ => rfl
  | member cls name value ih => rw [keyText, keyVisits, List.findSome?_cons, ih]; rfl
  | bytes writable data => exact (faultOf_textOfBytes data).trans List.findSome?_singleton.symm
  | int n => exact (faultOf_writeInt n).trans List.findSome?_singleton.symm
  | atom a => exact (faultOf_text a).trans List.findSome?_singleton.symm
  | _ => rfl

/-- The obstacle of a value comes before those of its parts. -/
theorem findSome?_value (v : Value) (parts : List Visit) :
    (.value level v :: parts).findSome? (Visit.obstacle? host) =
      if deepestLevel < level then some .nestingLimit
      else (v.obstacle? host).or (parts.findSome? (Visit.obstacle? host)) := by
  rw [List.findSome?_cons, Visit.obstacle?]
  by_cases hdeep : deepestLevel < level
  · rw [if_pos hdeep, if_pos hdeep]
  · rw [if_neg hdeep, if_neg hdeep]
    cases v.obstacle? host <;> rfl

private theorem faultOf_leaf {v : Value} {result : Except Fault Value} (h : faultOf result = v.obstacle? host) :
    faultOf (atLevel level result) = [Visit.value level v].findSome? (Visit.obstacle? host) := by
  rw [faultOf_atLevel, findSome?_value, h, List.findSome?_nil, Option.or_none]

private theorem faultOf_whole {v : Value} {α : Type} {result : Except Fault α} {f : α → Value} {parts : List Visit}
    (hv : v.obstacle? host = none) (h : faultOf result = parts.findSome? (Visit.obstacle? host)) :
    faultOf (atLevel level (result.map f)) = (.value level v :: parts).findSome? (Visit.obstacle? host) := by
  rw [faultOf_atLevel, findSome?_value, hv, faultOf_map, h, Option.none_or]

private theorem faultOf_encodeItems {items : List Value}
    (ih : ∀ v ∈ items, ∀ level,
      faultOf (encodeAt host level v) = (v.visits level).findSome? (Visit.obstacle? host)) :
    faultOf (encodeItems host level items) = (visitsOfItems level items).findSome? (Visit.obstacle? host) := by
  induction items with
  | nil => rfl
  | cons x xs ihx =>
    obtain ⟨hx, hxs⟩ := List.forall_mem_cons.1 ih
    rw [encodeItems, visitsOfItems, List.findSome?_append, faultOf_pair, hx, ihx hxs]

/-- A value is encoded exactly if nothing stands against any of its places, and otherwise the first obstacle is
raised. -/
theorem faultOf_encodeAt (v : Value) :
    faultOf (encodeAt host level v) = (v.visits level).findSome? (Visit.obstacle? host) := by
  induction v using induct generalizing level with
  | bytes writable data => exact faultOf_leaf ((faultOf_map _ _).trans (faultOf_textOfBytes data))
  | atom a => exact faultOf_leaf ((faultOf_map _ _).trans (faultOf_text a))
  | sequence kind items ih =>
    rw [visits]
    by_cases hkind : kind = .range
    · subst hkind
      rw [encodeAt, faultOf_atLevel, findSome?_value]
      rfl
    · have hv : (sequence kind items).obstacle? host = none := by cases kind <;> first | rfl | exact absurd rfl hkind
      rw [encodeAt.eq_def, ← faultOf_whole hv (faultOf_encodeItems fun w hw _ => ih w hw)]
      cases kind <;> first | rfl | exact absurd rfl hkind
  | set frozen items ih =>
    rw [encodeAt, visits]
    exact faultOf_whole rfl (faultOf_encodeItems fun w hw _ => ih w hw)
  | dict entries ih =>
    rw [encodeAt, visits]
    refine faultOf_whole rfl ?_
    induction entries with
    | nil => rfl
    | cons e es ihe =>
      obtain ⟨he, hes⟩ := List.forall_mem_cons.1 ih
      obtain ⟨k, v⟩ := e
      -- A key is come to before its value, so a fault of the key hides all that follows.
      rw [encodeEntries, visitsOfEntries, List.findSome?_append, List.findSome?_append, ← faultOf_keyText, ← he,
        ← ihe hes]
      cases keyText host k with
      | error fault => rfl
      | ok key => exact faultOf_pair ..
  | member cls name value ih =>
    rw [encodeAt, visits, faultOf_atLevel, findSome?_value, ih]
    rfl
  | record cls fields ih =>
    rw [encodeAt, visits]
    refine faultOf_whole rfl ?_
    induction fields with
    | nil => rfl
    | cons field fields ihf =>
      obtain ⟨hfield, hfields⟩ := List.forall_mem_cons.1 ih
      obtain ⟨f, v⟩ := field
      rw [encodeFields, visitsOfFields]
      cases cls.encodedName? f with
      | none => exact ihf hfields
      | some name =>
        dsimp only
        rw [List.findSome?_append, ← hfield, ← ihf hfields]
        exact faultOf_pair ..
  | foreign object => exact faultOf_leaf rfl
  | knot k =>
    have hknot : faultOf (atLevel level (.error .nestingLimit : Except Fault Value)) = some .nestingLimit := by
      rw [faultOf_atLevel]
      exact ite_self _
    exact hknot.symm.trans (faultOf_leaf rfl)
  | _ => exact faultOf_leaf rfl

/-- The value itself is come to first. -/
theorem visits_eq_cons (level : Nat) (v : Value) : ∃ parts, v.visits level = .value level v :: parts := by
  cases v <;> exact ⟨_, rfl⟩

theorem encodeAt_of_deep {v : Value} (h : deepestLevel < level) : encodeAt host level v = .error .nestingLimit := by
  obtain ⟨parts, hvisits⟩ := visits_eq_cons level v
  rw [← faultOf_eq_some_iff, faultOf_encodeAt, hvisits, findSome?_value, if_pos h]

/-- A value in more lists than there are levels is not encoded, whatever it is. -/
theorem encodeAt_nested (v : Value) {n : Nat} (h : deepestLevel < level + n) :
    encodeAt host level ((fun w => list [w])^[n] v) = .error .nestingLimit := by
  induction n generalizing level with
  | zero => exact encodeAt_of_deep h
  | succ n ih =>
    have hinner : encodeAt host (level + 1) ((fun w => list [w])^[n] v) = .error .nestingLimit := ih (by omega)
    rw [Function.iterate_succ_apply', encodeAt.eq_def]
    simp only [encodeItems, hinner, Bind.bind, Except.bind, Except.map, atLevel, ite_self]

/-- The fault that stands against the first place that cannot be encoded. -/
def FirstObstacle (host : Value) (fault : Fault) : Prop :=
  ∃ before visit after, host.visits 0 = before ++ visit :: after ∧
    visit.obstacle? host.typeName = some fault ∧ ∀ earlier ∈ before, earlier.obstacle? host.typeName = none

theorem encode_eq_error_iff {host : Value} {fault : Fault} :
    host.encode = .error fault ↔ host.FirstObstacle fault := by
  rw [encode, ← faultOf_eq_some_iff, faultOf_encodeAt, List.findSome?_eq_some_iff]
  exact ⟨fun ⟨before, visit, after, h⟩ => ⟨before, visit, after, h⟩,
    fun ⟨before, visit, after, h⟩ => ⟨before, visit, after, h⟩⟩

theorem encode_eq_ok_iff {host : Value} :
    (∃ d, host.encode = .ok d) ↔ ∀ visit ∈ host.visits 0, visit.obstacle? host.typeName = none := by
  rw [encode, ← faultOf_eq_none_iff, faultOf_encodeAt, List.findSome?_eq_none_iff]

end Value

/-- The faults of encoding that are not reported as such. -/
inductive Unreported : Fault → Prop where
  | nestingLimit : Unreported .nestingLimit
  | invalidUtf8 : Unreported .invalidUtf8
  | keyWithoutText : Unreported .keyWithoutText
  | digitLimit : Unreported .digitLimit

private theorem undecodable?_eq_some {data : List UInt8} {fault : Fault} (h : undecodable? data = some fault) :
    fault = .invalidUtf8 := by
  rw [undecodable?] at h
  split at h
  · cases h
  · exact (Option.some.inj h).symm

private theorem unwritable?_eq_some {n : Int} {fault : Fault} (h : unwritable? n = some fault) :
    fault = .digitLimit := by
  rw [unwritable?] at h
  split at h
  · cases h
  · exact (Option.some.inj h).symm

private theorem Atom.obstacle?_eq_some {a : Atom} {fault : Fault} (h : a.obstacle? = some fault) :
    fault = .digitLimit := by
  cases a with
  | fraction q => rcases Option.or_eq_some_iff.1 h with h | ⟨-, h⟩ <;> exact unwritable?_eq_some h
  | _ => cases h

/-- An obstacle is reported as what it is only if it is an object without an encoding. -/
theorem Visit.obstacle?_cases {host : String} {visit : Visit} {fault : Fault}
    (h : visit.obstacle? host = some fault) : (∃ part, fault = .unencodable host part) ∨ Unreported fault := by
  cases visit with
  | value level v =>
    rw [Visit.obstacle?] at h
    split at h
    · cases h; exact .inr .nestingLimit
    · unfold Value.obstacle? at h
      split at h
      · exact .inr (undecodable?_eq_some h ▸ .invalidUtf8)
      · exact .inr (Atom.obstacle?_eq_some h ▸ .digitLimit)
      · cases h; exact .inl ⟨_, rfl⟩
      · cases h; exact .inl ⟨_, rfl⟩
      · cases h; exact .inr .nestingLimit
      · cases h
  | key v =>
    rw [Visit.obstacle?] at h
    unfold Value.keyObstacle? at h
    split at h
    · exact .inr (unwritable?_eq_some h ▸ .digitLimit)
    · exact .inr (undecodable?_eq_some h ▸ .invalidUtf8)
    · exact .inr (Atom.obstacle?_eq_some h ▸ .digitLimit)
    all_goals cases h
    all_goals first | exact .inl ⟨_, rfl⟩ | exact .inr .keyWithoutText

namespace Command

theorem ofFault_unreported {fault : Fault} (h : Unreported fault) : Ending.ofFault fault = .escaped fault := by
  cases h <;> rfl

end Command

open Command in
/-- What becomes of encoding a host value. There is a document exactly if nothing stands against any place of the
value, and otherwise the fault of the first obstacle is raised, by tests, checks and programs that compare alike. A
command tells it with status two if it is an object without an encoding, and lets it escape if it is not. -/
theorem encoding_faults (host : Value) :
    ((∃ d, host.encode = .ok d) ↔ ∀ visit ∈ host.visits 0, visit.obstacle? host.typeName = none) ∧
    (∀ fault, host.encode = .error fault ↔ host.FirstObstacle fault) ∧
    (((∃ d, host.encode = .ok d) ∨ ∃ part, host.encode = .error (.unencodable host.typeName part)) ↔
      ∀ fault, host.FirstObstacle fault → ¬ Unreported fault) ∧
    ∀ fault, host.FirstObstacle fault →
      Program.assertEqual host = .error fault ∧
      (∀ program options, runTest program host Value.encode options = .error fault ∧
        check program host Value.encode options = .error (.fault fault)) ∧
      ∀ tree args s program, readArguments args = .ok (.run s) → s.document = none → s.Names tree program host →
        (Unreported fault → (run tree args).ending = .escaped fault ∧ (run tree args).ending.status = .error fault) ∧
        (¬ Unreported fault → (run tree args).ending.status = .ok 2) := by
  have hcases (fault : Fault) (h : host.FirstObstacle fault) :
      (∃ part, fault = .unencodable host.typeName part) ∨ Unreported fault := by
    obtain ⟨-, visit, -, -, hvisit, -⟩ := h
    exact visit.obstacle?_cases hvisit
  refine ⟨Value.encode_eq_ok_iff, fun fault => Value.encode_eq_error_iff, ⟨?_, ?_⟩, fun fault h => ?_⟩
  · intro hwell fault hfirst hunreported
    have hfault := Value.encode_eq_error_iff.2 hfirst
    rcases hwell with ⟨d, hd⟩ | ⟨part, hpart⟩
    · rw [hd] at hfault; cases hfault
    · rw [hpart] at hfault; cases hfault; cases hunreported
  · intro hreported
    cases hencode : host.encode with
    | ok d => exact .inl ⟨d, rfl⟩
    | error fault =>
      have hfirst := Value.encode_eq_error_iff.1 hencode
      obtain ⟨part, rfl⟩ := (hcases fault hfirst).resolve_right (hreported fault hfirst)
      exact .inr ⟨part, rfl⟩
  · have hencode := Value.encode_eq_error_iff.2 h
    refine ⟨?_, fun program options => ?_, fun tree args s program hargs hd names => ?_⟩
    · rw [Program.assertEqual, hencode]; rfl
    · have htest : runTest program host Value.encode options = .error fault := by rw [runTest, hencode]; rfl
      exact ⟨htest, by rw [check, htest]; rfl⟩
    · rw [ending_of_raises hargs (.encoding names hd hencode)]
      refine ⟨fun hunreported => ?_, fun hreported => ?_⟩
      · rw [ofFault_unreported hunreported]
        exact ⟨rfl, rfl⟩
      · obtain ⟨part, rfl⟩ := (hcases fault h).resolve_right hreported
        rfl

/-- Bytes that are not UTF-8, a list that holds itself, a set as a key and too many lists around a value: each of
these is raised as it is, and so escapes a command. -/
theorem encoding_faults_unreported :
    let key : Value := .dict [(.set true [], .null)]
    let deep : Value := (fun v => .list [v])^[255] .null
    (Value.bytes false [0xff]).encode = .error .invalidUtf8 ∧ (Value.knot .list).encode = .error .nestingLimit ∧
      key.encode = .error .keyWithoutText ∧ deep.encode = .error .nestingLimit ∧
      ¬ ∀ host fault, Value.encode host = .error fault → ∃ part, fault = .unencodable host.typeName part := by
  have hbytes : (Value.bytes false [0xff]).encode = .error .invalidUtf8 :=
    Value.encode_eq_error_iff.2 ⟨[], .value 0 (.bytes false [0xff]), [], rfl, by decide +kernel, nofun⟩
  refine ⟨hbytes, rfl, rfl, Value.encodeAt_nested .null (by decide), fun h => ?_⟩
  obtain ⟨part, hpart⟩ := h _ _ hbytes
  cases hpart

end Lockstep
