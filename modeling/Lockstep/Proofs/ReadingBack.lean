import Mathlib.Tactic.SplitIfs
import Lockstep.Number.Shortest

/-! Decimals that read back. Rounding depends on the value of a ratio only, every magnitude is the one nearest to
itself, and so the shortest decimal of a magnitude rounds to that magnitude. The shortcuts that reading takes far
out of range change nothing. -/

namespace Lockstep

private theorem roundHalfEven_mul_right {k : Nat} (hk : 0 < k) (num den : Nat) :
    roundHalfEven (num * k) (den * k) = roundHalfEven num den := by
  simp only [roundHalfEven, Nat.mul_div_mul_right _ _ hk, Nat.mul_mod_mul_right, ← Nat.mul_assoc,
    Nat.mul_lt_mul_right hk]

private theorem roundHalfEven_mul_self {den : Nat} (hden : 0 < den) (q : Nat) : roundHalfEven (q * den) den = q := by
  simp [roundHalfEven, Nat.mul_div_cancel q hden, hden]

private theorem roundHalfEven_eq_zero {num den : Nat} (h : 2 * num < den) : roundHalfEven num den = 0 := by
  have hlt : num < den := by omega
  rw [roundHalfEven, Nat.mod_eq_of_lt hlt, if_pos h, Nat.div_eq_of_lt hlt]

private theorem roundHalfEven_cases (num den : Nat) :
    roundHalfEven num den = num / den ∨ roundHalfEven num den = num / den + 1 := by
  have hparity := Nat.mod_two_eq_zero_or_one (num / den)
  simp only [roundHalfEven]
  split
  · exact .inl rfl
  · split
    · exact .inr rfl
    · omega

private theorem two_pow_pos (n : Nat) : 0 < Nat.pow 2 n := Nat.two_pow_pos n

private theorem two_pow_add (m n : Nat) : Nat.pow 2 (m + n) = Nat.pow 2 m * Nat.pow 2 n := Nat.pow_add 2 m n

private theorem ten_pow_pos (n : Nat) : 0 < Nat.pow 10 n := Nat.pow_pos (by decide)

private theorem ten_pow_eq (n : Nat) : Nat.pow 10 n = Nat.pow 2 n * Nat.pow 5 n := Nat.mul_pow 2 5 n

namespace Magnitude

/-- Rounding to a magnitude, for any number of units in one. -/
def nearest? (unit num den : Nat) : Option Magnitude :=
  let scale := (num * unit / den).log2 - 52
  let significand := roundHalfEven (num * unit) (den * Nat.pow 2 scale)
  if significand = Nat.pow 2 53 then mk? (Nat.pow 2 52) (scale + 1) else mk? significand scale

/-- Rounding is in units of `2 ^ -n`. The exponent is kept abstract, so that no proof evaluates the power. -/
theorem exists_nearest? : ∃ n, 1074 = n ∧ ∀ num den, ofRatio? num den = nearest? (Nat.pow 2 n) num den :=
  ⟨1074, rfl, fun num den => by rw [ofRatio?, nearest?]⟩

/-- Rounding does not depend on how a ratio is written. -/
theorem nearest?_mul_right {k : Nat} (hk : 0 < k) (unit num den : Nat) :
    nearest? unit (num * k) (den * k) = nearest? unit num den := by
  have hnum : num * k * unit = num * unit * k := Nat.mul_right_comm _ _ _
  have hden (p : Nat) : den * k * p = den * p * k := Nat.mul_right_comm _ _ _
  simp only [nearest?, hnum, hden, Nat.mul_div_mul_right _ _ hk, roundHalfEven_mul_right hk]

theorem ofRatio?_mul_right {k : Nat} (hk : 0 < k) (num den : Nat) :
    ofRatio? (num * k) (den * k) = ofRatio? num den := by
  obtain ⟨n, -, hround⟩ := exists_nearest?
  rw [hround, hround, nearest?_mul_right hk]

private theorem nearest?_congr {unit a b c d : Nat} (hb : 0 < b) (hd : 0 < d) (h : a * d = c * b) :
    nearest? unit a b = nearest? unit c d :=
  calc nearest? unit a b = nearest? unit (a * d) (b * d) := (nearest?_mul_right hd unit a b).symm
    _ = nearest? unit (c * b) (d * b) := by rw [h, Nat.mul_comm b d]
    _ = nearest? unit c d := nearest?_mul_right hb unit c d

private theorem mk?_self (x : Magnitude) : mk? x.significand x.scale = some x :=
  dif_pos ⟨x.significand_lt, x.normal, x.scale_le⟩

private theorem mk?_eq_none {significand scale : Nat} (h : 2045 < scale) : mk? significand scale = none :=
  dif_neg fun hc => absurd hc.2.2 (Nat.not_le.2 h)

/-- The scale that rounding chooses for a magnitude is its own. -/
theorem log2_units (x : Magnitude) : x.units.log2 - 52 = x.scale := by
  obtain ⟨significand, scale, hlt, hnormal, -⟩ := x
  change significand < 2 ^ 53 at hlt
  change (significand * 2 ^ scale).log2 - 52 = scale
  -- At scale zero there may be fewer than 53 bits, and the subtraction stops at zero.
  rcases hnormal with rfl | hnormal
  · have hlog : (significand * 2 ^ 0).log2 < 53 := by
      by_cases hzero : significand * 2 ^ 0 = 0
      · rw [hzero, Nat.log2_zero]
        decide
      · exact (Nat.log2_lt hzero).2 (by omega)
    omega
  · change 2 ^ 52 ≤ significand at hnormal
    have hpow := Nat.two_pow_pos scale
    have hunits : significand * 2 ^ scale ≠ 0 := Nat.mul_ne_zero (by omega) (by omega)
    have hlog : (significand * 2 ^ scale).log2 = 52 + scale := by
      refine (Nat.log2_eq_iff hunits).2 ⟨?_, ?_⟩
      · rw [Nat.pow_add]
        exact Nat.mul_le_mul_right _ hnormal
      · rw [Nat.add_right_comm, Nat.pow_add]
        exact Nat.mul_lt_mul_of_pos_right hlt hpow
    omega

/-- A magnitude is the one nearest to itself. -/
theorem nearest?_units {unit : Nat} (hunit : 0 < unit) (x : Magnitude) : nearest? unit x.units unit = some x := by
  have hsignificand : roundHalfEven (x.units * unit) (unit * Nat.pow 2 x.scale) = x.significand := by
    rw [units, Nat.mul_assoc, Nat.mul_comm (Nat.pow 2 x.scale)]
    exact roundHalfEven_mul_self (Nat.mul_pos hunit (two_pow_pos x.scale)) _
  simp only [nearest?, Nat.mul_div_cancel _ hunit, log2_units, hsignificand, if_neg (Nat.ne_of_lt x.significand_lt),
    mk?_self]

private theorem ratio_pos (x : Magnitude) : 0 < x.ratio.2 := by
  rw [ratio]
  split
  · exact two_pow_pos _
  · exact Nat.one_pos

private theorem ratio_units (x : Magnitude) {n : Nat} (hn : 1074 = n) :
    x.ratio.1 * Nat.pow 2 n = x.units * x.ratio.2 := by
  rw [ratio, units, hn]
  by_cases hscale : x.scale < n
  · have hpow := two_pow_add x.scale (n - x.scale)
    rw [Nat.add_sub_cancel' (Nat.le_of_lt hscale)] at hpow
    rw [if_pos hscale, hpow, Nat.mul_assoc]
  · have hpow := two_pow_add (x.scale - n) n
    rw [Nat.sub_add_cancel (Nat.not_lt.1 hscale)] at hpow
    rw [if_neg hscale, hpow, Nat.mul_assoc, Nat.mul_one]

private theorem ofRatio?_ratio (x : Magnitude) : ofRatio? x.ratio.1 x.ratio.2 = some x := by
  obtain ⟨n, hn, hround⟩ := exists_nearest?
  rw [hround, nearest?_congr x.ratio_pos (two_pow_pos n) (x.ratio_units hn), nearest?_units (two_pow_pos n)]

/-- The exact decimal of a magnitude reads back. -/
theorem ofDecimal?_exactDecimal (x : Magnitude) : ofDecimal? x.exactDecimal = some x := by
  have hratio := x.ofRatio?_ratio
  rw [ratio] at hratio
  by_cases hscale : x.scale < 1074
  · obtain ⟨k, hk⟩ : ∃ k, 1074 - x.scale = k + 1 := ⟨1074 - x.scale - 1, by omega⟩
    have hnegative : ¬ (0 : Int) ≤ -((k + 1 : Nat) : Int) := by omega
    rw [if_pos hscale, hk] at hratio
    rw [exactDecimal, if_pos hscale, hk, ofDecimal?, if_neg hnegative, Int.natAbs_neg, Int.natAbs_natCast,
      ten_pow_eq]
    exact (ofRatio?_mul_right (Nat.pow_pos (by decide)) _ _).trans hratio
  · rw [if_neg hscale] at hratio
    rw [exactDecimal, if_neg hscale, ofDecimal?, if_pos (Int.le_refl 0)]
    exact (congrArg (ofRatio? · 1) (Nat.mul_one _)).trans hratio

private theorem ofDecimal?_of_onGrid? {x : Magnitude} {exponent : Int} {d : Decimal} (h : x.onGrid? exponent = some d) :
    ofDecimal? d = some x := by
  simp only [onGrid?] at h
  split at h
  · rename_i hbelow habove
    cases h
    rcases roundHalfEven_cases (x.inSteps exponent).1 (x.inSteps exponent).2 with hr | hr <;> rw [hr]
    · exact of_decide_eq_true hbelow
    · exact of_decide_eq_true habove
  · rename_i hbelow _
    cases h
    exact of_decide_eq_true hbelow
  · rename_i _ habove
    cases h
    exact of_decide_eq_true habove
  · cases h

private theorem ofDecimal?_of_firstOnGrid? {x : Magnitude} {tries : Nat} {exponent : Int} {d : Decimal}
    (h : x.firstOnGrid? tries exponent = some d) : ofDecimal? d = some x := by
  induction tries generalizing exponent with
  | zero => cases h
  | succ tries ih =>
    rw [firstOnGrid?] at h
    split at h
    · rename_i hd
      cases h
      exact ofDecimal?_of_onGrid? hd
    · exact ih h

/-- What is less than half a unit rounds to zero. -/
theorem nearest?_of_lt {unit num den : Nat} (h : 2 * (num * unit) < den) :
    nearest? unit num den = some .zero := by
  have hround : roundHalfEven (num * unit) (den * Nat.pow 2 0) = 0 := by
    rw [Nat.pow_eq, Nat.pow_zero, Nat.mul_one]
    exact roundHalfEven_eq_zero h
  have hdiv : num * unit / den = 0 := Nat.div_eq_of_lt (by omega)
  simp only [nearest?, hdiv, Nat.log2_zero, Nat.zero_sub, hround]
  exact if_neg (Nat.ne_of_lt (two_pow_pos 53))

private theorem ofRatio?_zero {den : Nat} (hden : 0 < den) : ofRatio? 0 den = some .zero := by
  obtain ⟨n, -, hround⟩ := exists_nearest?
  rw [hround]
  exact nearest?_of_lt (by rwa [Nat.zero_mul])

private theorem ofDecimal?_of_digits_zero {d : Decimal} (h : d.digits = 0) : ofDecimal? d = some .zero := by
  rw [ofDecimal?, h]
  split
  · rw [Nat.zero_mul, ofRatio?_zero Nat.one_pos]
  · rw [ofRatio?_zero (ten_pow_pos _)]

private theorem eq_zero_of_significand {x : Magnitude} (h : x.significand = 0) : x = zero := by
  obtain ⟨significand, scale, hlt, hnormal, hscale⟩ := x
  cases h
  obtain rfl : scale = 0 := hnormal.resolve_right (by decide)
  rfl

/-- The shortest decimal of a magnitude reads back. -/
theorem ofDecimal?_shortest (x : Magnitude) : ofDecimal? x.shortest = some x := by
  rw [shortest]
  split
  · rename_i hzero
    rw [eq_zero_of_significand hzero, ofDecimal?, if_pos (Int.le_refl 0), Nat.zero_mul]
    exact ofRatio?_zero Nat.one_pos
  · cases hd : x.firstOnGrid? 19 x.coarsestGrid with
    | none => exact x.ofDecimal?_exactDecimal
    | some d => exact ofDecimal?_of_firstOnGrid? hd

theorem exponent_shortest {x : Magnitude} (h : x.shortest.digits = 0) : x.shortest.exponent = 0 := by
  have hx : x = zero := Option.some.inj (x.ofDecimal?_shortest.symm.trans (ofDecimal?_of_digits_zero h))
  rw [hx, shortest]
  rfl

/-- What is too large by its first bit alone rounds to no magnitude. -/
theorem nearest?_of_le {unit num den k : Nat} (h : Nat.pow 2 k ≤ num * unit / den) (hk : 2097 < k) :
    nearest? unit num den = none := by
  have hne : num * unit / den ≠ 0 := Nat.ne_of_gt (Nat.lt_of_lt_of_le (two_pow_pos k) h)
  have hlog : k ≤ (num * unit / den).log2 := (Nat.le_log2 hne).2 h
  simp only [nearest?]
  split
  · exact mk?_eq_none (by omega)
  · exact mk?_eq_none (by omega)

end Magnitude

private theorem two_pow_le_ten_pow {a b k e : Nat} (h : Nat.pow 2 a ≤ Nat.pow 10 b) (m : Nat) (hk : k ≤ a * m)
    (he : b * m ≤ e) : Nat.pow 2 k ≤ Nat.pow 10 e :=
  calc Nat.pow 2 k ≤ Nat.pow 2 (a * m) := Nat.pow_le_pow_right (by decide) hk
    _ = Nat.pow (Nat.pow 2 a) m := Nat.pow_mul 2 a m
    _ ≤ Nat.pow (Nat.pow 10 b) m := Nat.pow_le_pow_left h m
    _ = Nat.pow 10 (b * m) := (Nat.pow_mul 10 b m).symm
    _ ≤ Nat.pow 10 e := Nat.pow_le_pow_right (by decide) he

namespace Binary64
open Magnitude

private theorem lt_ten_pow_decimalLength (n : Nat) : n < Nat.pow 10 (decimalLength n) :=
  (Nat.length_toDigits_le_iff (by decide) Nat.length_toDigits_pos).1 (Nat.le_refl _)

/-- Powers of ten above `10 ^ 310` are beyond the largest magnitude. -/
theorem ofRatio?_large {digits e : Nat} (hdigits : digits ≠ 0) (he : 310 < e) :
    ofRatio? (digits * Nat.pow 10 e) 1 = none := by
  obtain ⟨n, hn, hround⟩ := exists_nearest?
  rw [hround]
  obtain ⟨k, hk⟩ : ∃ k, k = 205 * 5 := ⟨_, rfl⟩
  have hten : Nat.pow 2 k ≤ Nat.pow 10 e :=
    two_pow_le_ten_pow (a := 205) (b := 62) (by decide) 5 (by omega) (by omega)
  refine nearest?_of_le (k := k + n) ?_ (by omega)
  rw [two_pow_add, Nat.div_one]
  refine Nat.mul_le_mul_right _ (Nat.le_trans hten ?_)
  exact Nat.le_mul_of_pos_left _ (Nat.pos_of_ne_zero hdigits)

/-- Decimals below `10 ^ -330` are less than half of the least magnitude. -/
theorem ofRatio?_small {digits e : Nat} (he : 330 + decimalLength digits < e) :
    ofRatio? digits (Nat.pow 10 e) = some .zero := by
  obtain ⟨n, hn, hround⟩ := exists_nearest?
  rw [hround]
  refine nearest?_of_lt ?_
  obtain ⟨k, rfl⟩ : ∃ k, e = decimalLength digits + k := ⟨e - decimalLength digits, by omega⟩
  have hten : Nat.pow 2 (n + 1) ≤ Nat.pow 10 k :=
    two_pow_le_ten_pow (a := 215) (b := 65) (by decide) 5 (by omega) (by omega)
  calc 2 * (digits * Nat.pow 2 n) = digits * Nat.pow 2 (n + 1) := by
        rw [two_pow_add, Nat.mul_comm 2, Nat.mul_assoc]
    _ ≤ digits * Nat.pow 10 k := Nat.mul_le_mul_left _ hten
    _ < Nat.pow 10 (decimalLength digits) * Nat.pow 10 k :=
      Nat.mul_lt_mul_of_pos_right (lt_ten_pow_decimalLength digits) (ten_pow_pos k)
    _ = Nat.pow 10 (decimalLength digits + k) := (Nat.pow_add 10 _ k).symm

/-- The shortcuts of reading a decimal change nothing: it is always rounded to the nearest magnitude. -/
theorem ofDecimal_eq (negative : Bool) (digits : Nat) (exponent : Int) :
    ofDecimal negative digits exponent =
      (ofDecimal? ⟨digits, exponent⟩).elim (.infinite negative) (.finite negative) := by
  have hround : ofDecimal? ⟨digits, exponent⟩ = if 0 ≤ exponent then ofRatio? (digits * Nat.pow 10 exponent.toNat) 1
      else ofRatio? digits (Nat.pow 10 exponent.natAbs) := by rw [ofDecimal?]
  rw [ofDecimal]
  by_cases hdigits : digits = 0
  · rw [if_pos hdigits, ofDecimal?_of_digits_zero hdigits, Option.elim_some]
  rw [if_neg hdigits, hround]
  -- Either shortcut answers what rounding would, so the cases are those of the exponent.
  by_cases hlarge : 310 < exponent
  · rw [if_pos hlarge, if_pos (show 0 ≤ exponent by omega), ofRatio?_large hdigits (by omega),
      Option.elim_none]
  rw [if_neg hlarge]
  by_cases hsmall : exponent + decimalLength digits < -330
  · rw [if_pos hsmall, if_neg (show ¬ 0 ≤ exponent by omega), ofRatio?_small (by omega),
      Option.elim_some]
  rw [if_neg hsmall]
  split_ifs
  · rw [ofRatio]
  · rw [ofRatio]

end Binary64

end Lockstep
