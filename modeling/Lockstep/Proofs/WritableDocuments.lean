import Mathlib.Data.Rat.Lemmas
import Mathlib.Tactic.NormNum
import Lockstep.Number.Integer
import Lockstep.Proofs.EncodedDocuments
import Lockstep.Proofs.EntryOrder

/-! Documents whose integers are short enough to be written. The order of entries does not matter for that, and
neither does the spelling of numbers: a number with a fraction is never as large as an integer that is too long, so
equal documents can be written alike. -/

namespace Lockstep

theorem isWritable_iff {n : Int} : isWritable n ↔ n.natAbs < 10 ^ digitLimit :=
  decide_eq_true_iff.trans (Nat.length_toDigits_le_iff (by decide) (by decide))

/-- A whole magnitude has fewer binary digits than an integer may have decimal ones. -/
theorem Magnitude.lt_of_toRat_eq {x : Magnitude} {n : Nat} (h : x.toRat = n) : n < 2 ^ digitLimit := by
  have hsignificand : x.significand < 2 ^ 53 := x.significand_lt
  have hscale := x.scale_le
  rw [toRat, ratio] at h
  split at h
  · have hden : Nat.pow 2 (1074 - x.scale) ≠ 0 := (Nat.pow_pos (by decide)).ne'
    have hrat : mkRat x.significand (Nat.pow 2 (1074 - x.scale)) = mkRat n 1 := by
      rw [h, Rat.mkRat_one]
      rfl
    have hnat : x.significand = n * Nat.pow 2 (1074 - x.scale) := by
      have hcross := (Rat.mkRat_eq_iff hden one_ne_zero).1 hrat
      rw [Nat.cast_one, mul_one] at hcross
      exact_mod_cast hcross
    calc n ≤ n * Nat.pow 2 (1074 - x.scale) := Nat.le_mul_of_pos_right _ (Nat.pos_of_ne_zero hden)
      _ = x.significand := hnat.symm
      _ < 2 ^ 53 := hsignificand
      _ ≤ 2 ^ digitLimit := Nat.pow_le_pow_right (by decide) (by decide)
  · have hn : x.significand * 2 ^ (x.scale - 1074) = n := by
      rw [Rat.mkRat_one] at h
      exact_mod_cast h
    calc n = x.significand * 2 ^ (x.scale - 1074) := hn.symm
      _ < 2 ^ 53 * 2 ^ (x.scale - 1074) := Nat.mul_lt_mul_of_pos_right hsignificand (Nat.pow_pos (by decide))
      _ = 2 ^ (53 + (x.scale - 1074)) := (Nat.pow_add 2 53 _).symm
      _ ≤ 2 ^ digitLimit := Nat.pow_le_pow_right (by decide) (by rw [digitLimit]; omega)

/-- An integer that is the value of a floating-point number can be written. -/
theorem isWritable_of_quantity {x : Binary64} {n : Int} (h : x.quantity = .finite n) : isWritable n := by
  cases x with
  | nan => cases h
  | infinite => cases h
  | finite negative x =>
    have hrat : (if negative then -x.toRat else x.toRat) = n := Quantity.finite.inj h
    have hnonneg : 0 ≤ x.toRat := by
      rw [Magnitude.toRat]
      exact Rat.mkRat_nonneg (Int.natCast_nonneg _) _
    have hmagnitude : x.toRat = (n.natAbs : Rat) := by
      have habs : (n.natAbs : Rat) = |(n : Rat)| := by
        rw [← Int.cast_abs, Int.abs_eq_natAbs, Int.cast_natCast]
      rw [habs, ← hrat]
      cases negative with
      | true => rw [if_pos rfl, abs_neg, abs_of_nonneg hnonneg]
      | false => rw [if_neg Bool.false_ne_true, abs_of_nonneg hnonneg]
    rw [isWritable_iff]
    calc n.natAbs < 2 ^ digitLimit := Magnitude.lt_of_toRat_eq hmagnitude
      _ ≤ 10 ^ digitLimit := Nat.pow_le_pow_left (by decide) _

namespace Value

/-- No integer in a value is too long to be written. -/
def Writable (v : Value) : Prop := ∀ n : Int, v.Holds (.int n) → isWritable n

section Writable
variable {v w : Value}

theorem IsScalar.writable_iff (h : v.IsScalar) : v.Writable ↔ ∀ n, v = .int n → isWritable n :=
  forall_congr' fun _ => imp_congr_left h.holds_iff

theorem writable_int_iff {n : Int} : (Value.int n).Writable ↔ isWritable n := by
  rw [(IsScalar.int n).writable_iff]
  simp

/-- The least integer that is too long. -/
theorem not_writable_ten_pow : ¬ (Value.int (10 ^ digitLimit)).Writable := by
  have hten : (10 : Int).natAbs = 10 := rfl
  rw [writable_int_iff, isWritable_iff, Int.natAbs_pow, hten]
  exact Nat.lt_irrefl _

theorem IsScalar.writable (h : v.IsScalar) (hv : ∀ n, v ≠ .int n) : v.Writable :=
  h.writable_iff.2 fun n hn => absurd hn (hv n)

theorem writable_list_iff {items : List Value} : (list items).Writable ↔ ∀ x ∈ items, x.Writable := by
  simp only [Writable, holds_sequence_iff (.int _)]
  exact ⟨fun h x hx n hn => h n ⟨x, hx, hn⟩, fun h n ⟨x, hx, hn⟩ => h x hx n hn⟩

theorem writable_object_iff {fields : List (String × Value)} :
    (object fields).Writable ↔ ∀ f ∈ fields, f.2.Writable := by
  simp only [Writable, holds_object_iff (.int _)]
  exact ⟨fun h f hf n hn => h n ⟨f, hf, hn⟩, fun h n ⟨f, hf, hn⟩ => h f hf n hn⟩

theorem Reordered.writable (h : v.Reordered w) (hv : v.Writable) : w.Writable := by
  induction h with
  | refl => exact hv
  | list length_eq _ ih =>
    rw [writable_list_iff] at hv ⊢
    intro y hy
    obtain ⟨x, hx, hxy⟩ := exists_mem_of_forall₂ (forall₂_of_zip length_eq ih) y hy
    exact hxy (hv x hx)
  | object names _ ih =>
    rw [writable_object_iff] at hv ⊢
    intro g hg
    obtain ⟨v, hv'⟩ := exists_mem_of_names names.symm hg
    exact ih g.1 v g.2 hv' hg (hv _ hv')

theorem Reordered.writable_iff (h : v.Reordered w) : v.Writable ↔ w.Writable := ⟨h.writable, h.symm.writable⟩

/-- A number that is equal to another that can be written can be written, too. -/
theorem IsNumber.writable {q r : Quantity × Quantity} (hv : IsNumber v q) (hw : IsNumber w r)
    (h : sameNumber q r) (hwritable : w.Writable) : v.Writable := by
  cases hv with
  | float x => exact (IsScalar.float x).writable (by simp)
  | int n =>
    rw [writable_int_iff]
    have hequal := (Bool.and_eq_true_iff.1 h).1
    cases hw with
    | int m =>
      rw [writable_int_iff] at hwritable
      have hnm : (n : Rat) = m := by simpa [Quantity.equal] using hequal
      rwa [Rat.intCast_inj.1 hnm]
    | float x => exact isWritable_of_quantity (Quantity.equal_iff.1 hequal).1.symm

theorem Plain.writable_of_jsonEqual (hv : v.Plain) (hw : w.Plain) (h : v.jsonEqual w) (hwritable : w.Writable) :
    v.Writable := by
  induction hv generalizing w with
  | null => exact IsScalar.null.writable (by simp)
  | bool b => exact (IsScalar.bool b).writable (by simp)
  | text s => exact (IsScalar.text s).writable (by simp)
  | float x => exact (IsScalar.float x).writable (by simp)
  | int n =>
    obtain ⟨hb, r, hr, hs⟩ := ((IsNumber.int n).jsonEqual_iff w).1 h
    exact (IsNumber.int n).writable (hw.isNumber hb hr) hs hwritable
  | @list xs _ ih =>
    obtain ⟨ys, hys, hall⟩ := jsonEqual_list_iff.1 h
    cases hw with
    | list hyp =>
      cases hys
      rw [writable_list_iff] at hwritable ⊢
      intro x hx
      obtain ⟨y, hy, hxy⟩ := exists_mem_of_forall₂ hall.flip x hx
      exact ih x hx (hyp y hy) hxy (hwritable y hy)
    | _ => cases hys
  | @object fs distinct _ ih =>
    obtain ⟨es, hes, -⟩ := jsonEqual_object_iff.1 h
    cases hw with
    | object distinct' hgs =>
      rw [writable_object_iff] at hwritable ⊢
      intro f hf
      obtain ⟨w, hw, hfw⟩ := (jsonEqual_objects_iff.1 h).2 f hf
      have hmem := mem_of_lookup hw
      exact ih f hf (hgs _ hmem) hfw (hwritable _ hmem)
    | _ => cases hes

/-- Of equal documents both can be written or none. -/
theorem Plain.writable_iff (hv : v.Plain) (hw : w.Plain) (h : v.jsonEqual w) : v.Writable ↔ w.Writable :=
  ⟨hw.writable_of_jsonEqual hv (hv.jsonEqual_symm hw h), hv.writable_of_jsonEqual hw h⟩

end Writable

end Value

end Lockstep
