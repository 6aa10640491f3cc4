import Lockstep.Proofs.EncodedDocuments
import Lockstep.Proofs.LookupAgreement

/-! Equality of documents is a partial equivalence. It is symmetric and transitive because being alike at every
place that lookups lead to is so, and what fails to be equal to itself is exactly what holds a number without a
value. -/

namespace Lockstep

namespace Value
variable {u v w : Value}

/-- No value is an object and an array. -/
theorem isArray_eq_false_of_isObject (h : v.isObject) : v.isArray = false := by
  cases v with
  | dict entries => rfl
  | knot k => cases k with
    | list => cases h
    | dict => rfl
  | _ => cases h

private theorem isObject_eq_false_of_isArray (h : v.isArray) : v.isObject = false := by
  rw [← Bool.not_eq_true]
  intro hobject
  rw [isArray_eq_false_of_isObject hobject] at h
  cases h

theorem Corresponds.symm (h : Corresponds v w) : Corresponds w v := by
  cases h with
  | objects hv hw => exact .objects hw hv
  | arrays hv hw => exact .arrays hw hv
  | nulls => exact .nulls
  | bools b => exact .bools b
  | texts s => exact .texts s
  | numbers hv hw hq => exact .numbers hw hv hq

theorem Corresponds.trans (h : Corresponds u v) (h' : Corresponds v w) : Corresponds u w := by
  cases h with
  | objects hu hv => exact .objects hu (h'.isObject_right hv (isArray_eq_false_of_isObject hv))
  | arrays hu hv => exact .arrays hu (h'.isArray_right hv (isObject_eq_false_of_isArray hv))
  | nulls => exact h'
  | bools b => exact h'
  | texts s => exact h'
  | numbers hu hv =>
    obtain ⟨hw, hq⟩ := hv.corresponds_iff.1 h'
    exact .numbers hu hw hq

theorem Data.jsonEqual_iff_corresponds (hv : v.Data) (hw : w.Data) :
    v.jsonEqual w ↔ ∀ queries, Option.Rel Corresponds (v.resolve queries) (w.resolve queries) :=
  ⟨hv.corresponds_of_jsonEqual hw, hv.jsonEqual_of_corresponds hw⟩

section Relations
variable {α : Type} {R : α → α → Prop}

private theorem optionRel_symm (symm : ∀ x y, R x y → R y x) {a b : Option α} (h : Option.Rel R a b) :
    Option.Rel R b a := by
  cases h with
  | none => exact .none
  | some hxy => exact .some (symm _ _ hxy)

private theorem optionRel_trans (trans : ∀ x y z, R x y → R y z → R x z) {a b c : Option α}
    (h : Option.Rel R a b) (h' : Option.Rel R b c) : Option.Rel R a c := by
  cases h with
  | none => exact h'
  | some hxy => cases h' with
    | some hyz => exact .some (trans _ _ _ hxy hyz)

end Relations

theorem Data.jsonEqual_symm (hv : v.Data) (hw : w.Data) (h : v.jsonEqual w) : w.jsonEqual v := by
  rw [hw.jsonEqual_iff_corresponds hv]
  intro queries
  have hvw := hv.corresponds_of_jsonEqual hw h queries
  exact optionRel_symm (R := Corresponds) (fun _ _ => Corresponds.symm) hvw

theorem Data.jsonEqual_trans (hu : u.Data) (hv : v.Data) (hw : w.Data) (h : u.jsonEqual v)
    (h' : v.jsonEqual w) : u.jsonEqual w := by
  rw [hu.jsonEqual_iff_corresponds hw]
  intro queries
  have huv := hu.corresponds_of_jsonEqual hv h queries
  have hvw := hv.corresponds_of_jsonEqual hw h' queries
  exact optionRel_trans (R := Corresponds) (fun _ _ _ => Corresponds.trans) huv hvw

section NotANumber

/-- The undefined number is not equal to itself. -/
theorem not_jsonEqual_nan : ¬ (Value.float .nan).jsonEqual (.float .nan) := by
  rw [(IsNumber.float .nan).jsonEqual_iff]
  rintro ⟨-, r, hr, hs⟩
  cases hr
  cases hs

theorem IsScalar.jsonEqual_self_iff (h : v.IsScalar) : v.jsonEqual v ↔ ¬ v.Holds (.float .nan) := by
  rw [h.holds_iff]
  constructor
  · rintro hv rfl
    exact not_jsonEqual_nan hv
  · exact h.jsonEqual_self

/-- An array holds an undefined number if one of its items does. Bytes are numbers that are all defined. -/
theorem holds_nan_of_items {items : List Value} (h : v.items? = some items) (hv : v.Data) :
    v.Holds (.float .nan) ↔ ∃ x ∈ items, x.Holds (.float .nan) := by
  cases v with
  | sequence kind xs =>
    cases h
    exact holds_sequence_iff (.float .nan)
  | bytes writable data =>
    constructor
    · intro hh
      rcases Relation.ReflTransGen.cases_head hh with hnan | ⟨x, hx, -⟩
      · cases hnan
      · cases hx
    · rintro ⟨x, hx, hrest⟩
      cases writable with
      | false => cases h
      | true =>
        cases h
        obtain ⟨b, -, rfl⟩ := List.mem_map.1 hx
        cases (IsScalar.int b.toNat).holds_iff.1 hrest
  | knot k => exact absurd hv (not_data_knot k)
  | _ => cases h

/-- What is equal to itself is what holds no undefined number. -/
theorem Data.jsonEqual_self_iff (hv : v.Data) : v.jsonEqual v ↔ ¬ v.Holds (.float .nan) := by
  induction hv with
  | null => exact IsScalar.null.jsonEqual_self_iff
  | bool b => exact (IsScalar.bool b).jsonEqual_self_iff
  | int n => exact (IsScalar.int n).jsonEqual_self_iff
  | float x => exact (IsScalar.float x).jsonEqual_self_iff
  | text s => exact (IsScalar.text s).jsonEqual_self_iff
  | @array v items hitems h ih =>
    have hself : v.jsonEqual v ↔ ∀ x ∈ items, x.jsonEqual x := by
      rw [jsonEqual_array_iff (.array hitems h) hitems, hitems]
      simp [List.forall₂_same]
    rw [hself, holds_nan_of_items hitems (.array hitems h)]
    simp only [not_exists, not_and]
    exact forall₂_congr ih
  | @object fields distinct h ih =>
    have hself : (Value.object fields).jsonEqual (Value.object fields) ↔ ∀ f ∈ fields, f.2.jsonEqual f.2 := by
      rw [jsonEqual_objects_iff, and_iff_right rfl]
      refine forall₂_congr fun f hf => ?_
      rw [(lookup_eq_some_iff_mem distinct).2 hf]
      simp
    rw [hself, holds_object_iff (.float .nan)]
    simp only [not_exists, not_and]
    exact forall₂_congr ih

end NotANumber

end Value

/-- Equality of documents does not depend on the side, what is equal to the same document is equal, and a document
is equal to itself exactly if it holds no undefined number at any depth. -/
theorem jsonEqual_partial_equivalence {u v w : Value} (hu : u.Data) (hv : v.Data) (hw : w.Data) :
    u.jsonEqual v = v.jsonEqual u ∧ (u.jsonEqual v → v.jsonEqual w → u.jsonEqual w) ∧
      (u.jsonEqual u ↔ ¬ u.Holds (.float .nan)) := by
  refine ⟨?_, hu.jsonEqual_trans hv hw, hu.jsonEqual_self_iff⟩
  rw [Bool.eq_iff_iff]
  exact ⟨hu.jsonEqual_symm hv, hv.jsonEqual_symm hu⟩

theorem jsonEqual_partial_equivalence_sequences :
    let large : Binary64 := .finite false ⟨4503599627370496, 1075, by decide, .inr (by decide), by decide⟩
    let u : Value := .sequence .tuple [.int 9007199254740992, .object [("a", .null), ("b", .sequence .range [.int 0])]]
    let v : Value := .sequence .deque [.float large, .object [("b", .bytes true [0]), ("a", .null)]]
    let w : Value := .list [.float large, .object [("a", .null), ("b", .list [.float (.finite true .zero)])]]
    u.Data ∧ v.Data ∧ w.Data ∧ u.jsonEqual v ∧ v.jsonEqual w ∧
      v.jsonEqual u ∧ u.jsonEqual w ∧ ¬ u.Holds (.float .nan) := by
  intro large u v w
  have hpair {head first second : Value} {kind : SequenceKind} {name other : String} (distinct : name ≠ other)
      (hhead : head.Data) (hfirst : first.Data) (hsecond : second.Data) :
      (Value.sequence kind [head, .object [(name, first), (other, second)]]).Data := by
    refine .array rfl ?_
    simp only [List.forall_mem_cons]
    refine ⟨hhead, .object (by simpa using distinct) ?_, List.forall_mem_nil _⟩
    simp only [List.forall_mem_cons]
    exact ⟨hfirst, hsecond, List.forall_mem_nil _⟩
  have hu : u.Data := hpair (by decide) (.int _) .null (.array rfl (by simpa using .int 0))
  have hv : v.Data := hpair (by decide) (.float _) (.array rfl (by simpa using .int 0)) .null
  have hw : w.Data := hpair (by decide) (.float _) .null (.array rfl (by simpa using .float _))
  have huv : u.jsonEqual v := by decide +kernel
  have hvw : v.jsonEqual w := by decide +kernel
  obtain ⟨hsymm, htrans, hself⟩ := jsonEqual_partial_equivalence hu hv hw
  refine ⟨hu, hv, hw, huv, hvw, hsymm ▸ huv, htrans huv hvw, hself.1 ?_⟩
  decide +kernel

end Lockstep
