import Lockstep.Program.Equality
import Lockstep.Proofs.CanonicalText
import Lockstep.Proofs.EncodingFaults

/-! Encoding is a projection. What it gives is plain data that stays above the deepest level, all such data is its
own encoding, and so a document that is encoded again does not change. -/

namespace Lockstep

namespace Value

/-- Plain data at a level, no part of which is too deep. -/
inductive Fits : Nat → Value → Prop where
  | scalar {level : Nat} {d : Value} (hlevel : level ≤ deepestLevel) (h : d.IsScalar) : Fits level d
  | list {level : Nat} {items : List Value} (hlevel : level ≤ deepestLevel)
      (h : ∀ v ∈ items, Fits (level + 1) v) : Fits level (.list items)
  | object {level : Nat} {fields : List (String × Value)} (hlevel : level ≤ deepestLevel)
      (distinct : (fields.map (·.1)).Nodup) (h : ∀ f ∈ fields, Fits (level + 1) f.2) :
      Fits level (.object fields)

variable {host : String} {level level' : Nat} {v d : Value}

theorem Fits.plain (h : Fits level d) : d.Plain := by
  induction h with
  | scalar _ h => exact h.plain
  | list _ _ ih => exact .list ih
  | object _ distinct _ ih => exact .object distinct ih

/-- What fits at a level fits further up. -/
theorem Fits.of_le (h : Fits level d) (hle : level' ≤ level) : Fits level' d := by
  induction h generalizing level' with
  | scalar hlevel h => exact .scalar (Nat.le_trans hle hlevel) h
  | list hlevel _ ih =>
    apply Fits.list (Nat.le_trans hle hlevel)
    intro v hv
    exact ih v hv (Nat.succ_le_succ hle)
  | object hlevel distinct _ ih =>
    apply Fits.object (Nat.le_trans hle hlevel) distinct
    intro f hf
    exact ih f hf (Nat.succ_le_succ hle)

theorem IsScalar.encodeAt_eq (hlevel : level ≤ deepestLevel) (h : d.IsScalar) : encodeAt host level d = .ok d := by
  cases h <;> exact atLevel_eq_ok_iff.2 ⟨hlevel, rfl⟩

/-- What fits at a level is its own encoding there. -/
theorem Fits.encodeAt_eq (h : Fits level d) : encodeAt host level d = .ok d := by
  induction h with
  | scalar hlevel h => exact h.encodeAt_eq hlevel
  | @list level items hlevel _ ih =>
    have hitems : List.Forall₂ (fun x d => encodeAt host (level + 1) x = .ok d) items items :=
      List.forall₂_same.2 ih
    exact encodeAt_sequence_eq_ok_iff.2 ⟨hlevel, nofun, items, hitems, rfl⟩
  | @object level fields hlevel distinct _ ih =>
    have hfields : List.Forall₂
        (fun e f => keyText host e.1 = .ok f.1 ∧ encodeAt host (level + 1) e.2 = .ok f.2)
        (fields.map fun f => (.text f.1, f.2)) fields := by
      rw [List.forall₂_map_left_iff, List.forall₂_same]
      intro f hf
      exact ⟨rfl, ih f hf⟩
    exact encodeAt_dict_eq_ok_iff.2 ⟨hlevel, fields, hfields, (dictOf_of_nodup distinct).symm⟩

private theorem level_le_of_encodeAt (h : encodeAt host level v = .ok d) : level ≤ deepestLevel := by
  by_contra hdeep
  rw [encodeAt_of_deep (by omega)] at h
  cases h

/-- Every encoding fits at the level of the value. The members of enumerations take a level that their encodings do
not have, so an encoding may be less deep than the value. -/
theorem fits_of_encodeAt (h : encodeAt host level v = .ok d) : Fits level d := by
  induction v using induct_part generalizing level d with
  | step v ih =>
    have hlevel := level_le_of_encodeAt h
    rcases encodeAt_cases h with ⟨hd, -⟩ | ⟨ds, rfl, hds⟩ | ⟨fs, rfl, hfs⟩ | ⟨w, hw, hd⟩
    · exact .scalar hlevel hd
    · apply Fits.list hlevel
      intro e he
      obtain ⟨w, hw, hwe⟩ := hds e he
      exact ih w hw hwe
    · obtain ⟨gs, hgs, hnodup, hsub⟩ := exists_dictOf_subset fs
      rw [hgs]
      apply Fits.object hlevel hnodup
      intro g hg
      obtain ⟨w, hw, hwg⟩ := hfs g (hsub hg)
      exact ih w hw hwg
    · exact (ih w hw hd).of_le (Nat.le_succ level)

/-- Encodings are exactly the documents that fit. -/
theorem exists_encode_iff : (∃ v : Value, v.encode = .ok d) ↔ Fits 0 d := by
  constructor
  · rintro ⟨v, hv⟩
    exact fits_of_encodeAt hv
  · intro h
    exact ⟨d, h.encodeAt_eq⟩

end Value

/-- What a value is encoded into is plain data, which is its own encoding, with the same numbers and the same order
of entries, and has a canonical text unless an integer in it is too long. So to compare with a document is to compare
with that document itself, and nothing but the plain data that is not too deep is ever the encoding of a value. -/
theorem encode_projection {v d : Value} (h : v.encode = .ok d) :
    d.Plain ∧ ((∃ text, d.render = .ok text) ↔ d.Writable) ∧
      (∀ fault, d.render = .error fault ↔ ¬ d.Writable ∧ fault = .digitLimit) ∧ d.encode = .ok d ∧
      Program.assertEqual d = .ok (.require (equalTo d)) ∧ Program.assertEqual v = Program.assertEqual d ∧
      ∀ e : Value, (∃ w : Value, w.encode = .ok e) ↔ e.Fits 0 := by
  have hfits := Value.exists_encode_iff.1 ⟨v, h⟩
  have hself : d.encode = .ok d := hfits.encodeAt_eq
  have hexpected : Program.assertEqual d = .ok (.require (equalTo d)) := by rw [Program.assertEqual, hself]; rfl
  refine ⟨hfits.plain, hfits.plain.exists_render_iff, fun fault => hfits.plain.render_eq_error_iff, hself, hexpected,
    ?_, fun e => Value.exists_encode_iff⟩
  rw [hexpected, Program.assertEqual, h]
  rfl

theorem encode_projection_keys :
    let account : RecordClass := ⟨"Account", [], [("balance", "accountBalance")], ["pin"]⟩
    let fields : List (String × Value) := [("balance", .float .nan), ("pin", .foreign ⟨"type", "type", true⟩)]
    let v : Value := .dict [(.int 1, .null), (.null, .record account fields),
      (.text "1", .sequence .tuple [.int 1, .float (.finite true .zero)])]
    let d : Value := .object [("1", .list [.int 1, .float (.finite true .zero)]),
      ("None", .object [("accountBalance", .float .nan)])]
    v.encode = .ok d ∧ d.Plain ∧ d.encode = .ok d ∧ Program.assertEqual d = .ok (.require (equalTo d)) := by
  intro account fields v d
  have hentries : v.encode = .ok (Value.dictOf [(.text "1", .null),
      (.text "None", .object [("accountBalance", .float .nan)]),
      (.text "1", .list [.int 1, .float (.finite true .zero)])]) := rfl
  have h : v.encode = .ok d := by
    rw [hentries]
    simp [Value.dictOf, Value.insertEntry, Value.object, d]
  obtain ⟨hplain, -, -, hself, hexpected, -⟩ := encode_projection h
  exact ⟨h, hplain, hself, hexpected⟩

/-- An integer that is too long is encoded as it is, and has no canonical text. -/
theorem encoded_integer_without_text :
    let v : Value := .int (10 ^ digitLimit)
    v.encode = .ok v ∧ v.render = .error .digitLimit := by
  intro v
  have hplain : v.Plain := .int _
  exact ⟨(Value.IsScalar.int _).encodeAt_eq (Nat.zero_le _), hplain.render_eq_digitLimit Value.not_writable_ten_pow⟩

end Lockstep
