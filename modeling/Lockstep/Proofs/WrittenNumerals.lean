import Lockstep.Json.Token
import Lockstep.Number.Layout
import Lockstep.Proofs.ReadingBack

/-! Written numbers. A numeral that is written part by part is split into the same parts again, and both the
decimal notation of integers and the layout of floating-point numbers write such numerals. So what is written
for a number is read as that number. -/

namespace Lockstep

section Digits
variable {cs : List Char}

private theorem digitValue?_of_isDigit {c : Char} (h : c.isDigit) : digitValue? 10 c = some (c.toNat - '0'.toNat) := by
  obtain ⟨hlow, hhigh⟩ := Bool.and_eq_true_iff.1 h
  have hle : '0' ≤ c ∧ c ≤ '9' := ⟨of_decide_eq_true hlow, of_decide_eq_true hhigh⟩
  have hlt : c.toNat - '0'.toNat < 10 := by
    have hnine : c.toNat ≤ '9'.toNat := hle.2
    have : '0'.toNat = 48 := rfl
    have : '9'.toNat = 57 := rfl
    omega
  rw [digitValue?, if_pos hle, if_pos hlt]

private theorem digitsFrom?_of_isDigit (h : ∀ c ∈ cs, c.isDigit) (n : Nat) :
    digitsFrom? 10 n cs = some (Nat.ofDigitChars 10 cs n) := by
  induction cs generalizing n with
  | nil => rw [digitsFrom?, Nat.ofDigitChars_nil]
  | cons c cs ih =>
    obtain ⟨hc, hcs⟩ := List.forall_mem_cons.1 h
    rw [digitsFrom?, digitValue?_of_isDigit hc, Nat.ofDigitChars_cons]
    exact ih hcs _

theorem isDigit_toDigits (n : Nat) : ∀ c ∈ Nat.toDigits 10 n, c.isDigit :=
  fun _ hc => Nat.isDigit_of_mem_toDigits (by decide) (by decide) hc

/-- The decimal notation of a number tells the number. -/
theorem toDigits_inj {m n : Nat} (h : Nat.toDigits 10 m = Nat.toDigits 10 n) : m = n :=
  calc m = Nat.ofDigitChars 10 (Nat.toDigits 10 m) 0 := Nat.ofDigitChars_ten_toDigits.symm
    _ = Nat.ofDigitChars 10 (Nat.toDigits 10 n) 0 := by rw [h]
    _ = n := Nat.ofDigitChars_ten_toDigits

private theorem isDigit_zeros (n : Nat) : ∀ c ∈ NumberLayout.zeros n, c.isDigit :=
  fun _ hc => List.eq_of_mem_replicate hc ▸ rfl

/-- The decimal notation of a number does not begin with a zero, unless the number is zero. -/
theorem head?_toDigits_ne {n : Nat} (h : n ≠ 0) : (Nat.toDigits 10 n).head? ≠ some '0' := by
  induction n using Nat.strongRecOn with
  | ind n ih =>
    rw [Nat.toDigits_eq_if (by decide)]
    split
    · simpa using h
    · have hhead := ih (n / 10) (by omega) (by omega)
      obtain ⟨c, cs, hcs⟩ := List.exists_cons_of_ne_nil (Nat.toDigits_ne_nil (n := n / 10) (b := 10))
      rw [hcs] at hhead ⊢
      exact hhead

end Digits

namespace Numeral

/-- A sign as it is written. -/
def signChars : Option Bool → List Char
  | none => []
  | some negative => [if negative then '-' else '+']

/-- The text of a numeral. -/
def written (n : Numeral) : List Char :=
  signChars n.sign ++ (n.whole ++ ((n.fraction.elim [] ('.' :: ·)) ++
    n.exponent.elim [] fun e => 'e' :: (signChars e.1 ++ e.2)))

/-- The parts of a numeral consist of digits, and its exponent has one at least. -/
structure Digital (n : Numeral) : Prop where
  whole : ∀ c ∈ n.whole, c.isDigit
  fraction : ∀ cs, n.fraction = some cs → ∀ c ∈ cs, c.isDigit
  exponent : ∀ sign cs, n.exponent = some (sign, cs) → cs ≠ [] ∧ ∀ c ∈ cs, c.isDigit

/-- What does not begin with a sign. -/
def Unsigned (cs : List Char) : Prop := cs.head? ≠ some '-' ∧ cs.head? ≠ some '+'

private theorem takeSign_written {sign : Option Bool} {rest : List Char} (h : Unsigned rest) :
    takeSign (signChars sign ++ rest) = (sign, rest) := by
  match sign with
  | some true => rfl
  | some false => rfl
  | none =>
    obtain ⟨hminus, hplus⟩ := h
    change takeSign rest = (none, rest)
    unfold takeSign
    split
    · exact absurd rfl hminus
    · exact absurd rfl hplus
    · rfl

private theorem takeDigits_append {ds : List Char} (h : ∀ c ∈ ds, c.isDigit) (rest : List Char)
    (hrest : ∀ c ∈ rest.head?, ¬ c.isDigit) : takeDigits (ds ++ rest) = (ds, rest) := by
  have hstop : rest.takeWhile Char.isDigit = [] ∧ rest.dropWhile Char.isDigit = rest := by
    cases rest with
    | nil => exact ⟨rfl, rfl⟩
    | cons c rest => exact ⟨List.takeWhile_cons_of_neg (hrest c rfl), List.dropWhile_cons_of_neg (hrest c rfl)⟩
  rw [takeDigits, List.takeWhile_append_of_pos h, List.dropWhile_append_of_pos h, hstop.1, hstop.2,
    List.append_nil]

private theorem unsigned_of_isDigit {ds rest : List Char} (h : ∀ c ∈ ds, c.isDigit) (hrest : Unsigned rest) :
    Unsigned (ds ++ rest) := by
  cases ds with
  | nil => exact hrest
  | cons c ds =>
    have hc : c.isDigit := h c List.mem_cons_self
    constructor
    · rintro ⟨⟩
      exact absurd hc (by decide)
    · rintro ⟨⟩
      exact absurd hc (by decide)

/-- A numeral that is written is split into its parts again. -/
theorem split?_written {n : Numeral} (hn : n.Digital) : split? n.written = some n := by
  obtain ⟨sign, whole, fraction, exponent⟩ := n
  obtain ⟨hwhole, hfraction, hexponent⟩ := hn
  -- What follows digits is empty or begins with a point or a mark, so that taking digits stops there.
  have hbegin (rest : List Char) (hu : Unsigned rest) (hr : ∀ c ∈ rest.head?, ¬ c.isDigit) :
      takeSign (signChars sign ++ (whole ++ rest)) = (sign, whole ++ rest) ∧
        takeDigits (whole ++ rest) = (whole, rest) :=
    ⟨takeSign_written (unsigned_of_isDigit hwhole hu), takeDigits_append hwhole rest hr⟩
  have hend (s : Option Bool) (cs : List Char) (h : exponent = some (s, cs)) :
      takeSign (signChars s ++ cs) = (s, cs) ∧ takeDigits cs = (cs, []) ∧ cs.isEmpty = false := by
    obtain ⟨hne, hcs⟩ := hexponent s cs h
    have hunsigned := unsigned_of_isDigit hcs (show Unsigned [] from ⟨nofun, nofun⟩)
    have hdigits := takeDigits_append hcs [] nofun
    rw [List.append_nil] at hunsigned hdigits
    exact ⟨takeSign_written hunsigned, hdigits, List.isEmpty_eq_false_iff.2 hne⟩
  cases fraction with
  | none => cases exponent with
    | none =>
      obtain ⟨hsign, hdigits⟩ := hbegin [] ⟨nofun, nofun⟩ nofun
      simp only [split?, written, Option.elim_none, List.append_nil] at hsign hdigits ⊢
      simp only [hsign, hdigits]
    | some e =>
      obtain ⟨hs, hcs, hne⟩ := hend e.1 e.2 rfl
      obtain ⟨hsign, hdigits⟩ := hbegin ('e' :: (signChars e.1 ++ e.2)) ⟨by simp, by simp⟩ (by simp)
      simp [split?, written, hsign, hdigits, hs, hcs, hne]
  | some ds =>
    have hds := hfraction ds rfl
    cases exponent with
    | none =>
      obtain ⟨hsign, hdigits⟩ := hbegin ('.' :: ds) ⟨by simp, by simp⟩ (by simp)
      have hfrac := takeDigits_append hds [] nofun
      simp only [split?, written, Option.elim_none, Option.elim_some, List.append_nil] at hfrac ⊢
      simp only [hsign, hdigits, hfrac]
    | some e =>
      obtain ⟨hs, hcs, hne⟩ := hend e.1 e.2 rfl
      obtain ⟨hsign, hdigits⟩ :=
        hbegin ('.' :: (ds ++ 'e' :: (signChars e.1 ++ e.2))) ⟨by simp, by simp⟩ (by simp)
      have hfrac := takeDigits_append hds ('e' :: (signChars e.1 ++ e.2)) (by simp)
      simp [split?, written, hsign, hdigits, hfrac, hs, hcs, hne]

private theorem coefficient_eq {n : Numeral} (hn : n.Digital) :
    n.coefficient = Nat.ofDigitChars 10 (n.whole ++ n.fraction.getD []) 0 := by
  have hdigits : ∀ c ∈ n.whole ++ n.fraction.getD [], c.isDigit := by
    intro c hc
    rcases List.mem_append.1 hc with hc | hc
    · exact hn.whole c hc
    · cases hf : n.fraction with
      | none => rw [hf] at hc; cases hc
      | some cs => rw [hf] at hc; exact hn.fraction cs hf c hc
  rw [coefficient, digitsFrom?_of_isDigit hdigits, Option.getD_some]

end Numeral

/-- A numeral that stands for a decimal as a floating-point number, in the syntax of documents. -/
structure Numeral.StandsFor (n : Numeral) (d : Decimal) : Prop where
  digital : n.Digital
  whole : Json.isWhole n.whole
  fraction : n.fraction ≠ some []
  marked : (n.fraction.isNone && n.exponent.isNone) = false
  value : Magnitude.ofDecimal? ⟨n.coefficient, n.power⟩ = Magnitude.ofDecimal? d

/-- The digits of a number: no leading zero, except for the number zero itself. -/
structure Leading (digits : List Char) : Prop where
  ne_nil : digits ≠ []
  isDigit : ∀ c ∈ digits, c.isDigit
  head : digits.head? ≠ some '0' ∨ digits = ['0']

private theorem leading_toDigits (n : Nat) : Leading (Nat.toDigits 10 n) := by
  refine ⟨Nat.toDigits_ne_nil, isDigit_toDigits n, ?_⟩
  by_cases hn : n = 0
  · exact .inr (hn ▸ rfl)
  · exact .inl (head?_toDigits_ne hn)

private theorem isWhole_of_head {cs : List Char} (hne : cs ≠ []) (hhead : cs.head? ≠ some '0')
    (hlen : cs.length ≤ digitLimit) :
    Json.isWhole cs := by
  match cs with
  | [_] => rfl
  | c :: d :: cs =>
    have hc : c ≠ '0' := fun h => hhead (h ▸ rfl)
    have hshort : cs.length + 1 < digitLimit := hlen
    simp [Json.isWhole, hc, hshort]

/-- Zeros at the end of the digits, one of them behind the point, change nothing. -/
theorem ofDecimal?_zeros (n z : Nat) :
    Magnitude.ofDecimal? ⟨10 * (Nat.pow 10 z * n), -1⟩ = Magnitude.ofDecimal? ⟨n, z⟩ := by
  have hnegative : ¬ (0 : Int) ≤ -1 := by decide
  rw [Magnitude.ofDecimal?, Magnitude.ofDecimal?, if_neg hnegative, if_pos (Int.natCast_nonneg z),
    Int.toNat_natCast]
  have hscaled := Magnitude.ofRatio?_mul_right (k := 10) (by decide) (n * Nat.pow 10 z) 1
  rw [← hscaled, Nat.mul_comm 10, Nat.mul_comm (Nat.pow 10 z)]
  rfl

/-- Characters that are a numeral behind any sign, which stands for a decimal. -/
def Writes (cs : List Char) (d : Decimal) : Prop :=
  ∀ sign, ∃ n : Numeral, n.sign = sign ∧ n.written = Numeral.signChars sign ++ cs ∧ n.StandsFor d

namespace NumberLayout
open Numeral

section Positional
variable {digits : List Char} {point : Int}

/-- The point stands before all digits. -/
theorem writes_positional_before (h : Leading digits) (hsmall : point ≤ 0) :
    Writes (positional ['.', '0'] digits point) ⟨Nat.ofDigitChars 10 digits 0, point - digits.length⟩ := by
  intro sign
  have hdigital : Digital ⟨sign, ['0'], some (zeros point.natAbs ++ digits), none⟩ := by
    refine ⟨by simp, ?_, nofun⟩
    rintro cs ⟨⟩ c hc
    exact (List.mem_append.1 hc).elim (isDigit_zeros _ c) (h.isDigit c)
  have hvalue :
      Nat.ofDigitChars 10 (['0'] ++ (zeros point.natAbs ++ digits)) 0 = Nat.ofDigitChars 10 digits 0 := by
    rw [Nat.ofDigitChars_append, Nat.ofDigitChars_append, zeros, Nat.ofDigitChars_replicate_zero]
    simp [Nat.ofDigitChars_cons]
  refine ⟨_, rfl, ?_, hdigital, rfl, by simp [h.ne_nil], rfl, ?_⟩
  · simp [written, positional, hsmall]
  · rw [coefficient_eq hdigital, Option.getD_some, hvalue, power]
    congr 2
    change 0 - ((zeros point.natAbs ++ digits).length : Int) = _
    rw [zeros, List.length_append, List.length_replicate]
    omega

/-- The point stands behind all digits, and behind zeros that fill the places up to it. -/
theorem writes_positional_behind (h : Leading digits) (hpoint : point ≤ 16) (hzero : digits = ['0'] → point ≤ 1)
    (hsmall : ¬ point ≤ 0) (hlong : digits.length ≤ point.toNat) :
    Writes (positional ['.', '0'] digits point) ⟨Nat.ofDigitChars 10 digits 0, point - digits.length⟩ := by
  intro sign
  have hdigital : Digital ⟨sign, digits ++ zeros (point.toNat - digits.length), some ['0'], none⟩ := by
    refine ⟨fun c hc => (List.mem_append.1 hc).elim (h.isDigit c) (isDigit_zeros _ c), ?_, nofun⟩
    rintro cs ⟨⟩
    simp
  have hwhole : Json.isWhole (digits ++ zeros (point.toNat - digits.length)) := by
    rcases h.head with hhead | rfl
    · refine isWhole_of_head (by simp [h.ne_nil]) ?_ ?_
      · obtain ⟨c, cs, rfl⟩ := List.exists_cons_of_ne_nil h.ne_nil
        exact hhead
      · simp [zeros, digitLimit]
        omega
    · have hone : point.toNat - 1 = 0 := by have := hzero rfl; omega
      simp [hone, zeros, Json.isWhole]
  have hvalue : Nat.ofDigitChars 10 (digits ++ zeros (point.toNat - digits.length) ++ ['0']) 0 =
      10 * (10 ^ (point.toNat - digits.length) * Nat.ofDigitChars 10 digits 0) := by
    rw [Nat.ofDigitChars_append, Nat.ofDigitChars_append, zeros, Nat.ofDigitChars_replicate_zero]
    simp [Nat.ofDigitChars_cons]
  refine ⟨_, rfl, ?_, hdigital, hwhole, by simp, rfl, ?_⟩
  · simp [written, positional, hsmall, hlong]
  · have hpoint' : point - digits.length = ((point.toNat - digits.length : Nat) : Int) := by omega
    rw [coefficient_eq hdigital, Option.getD_some, hvalue, hpoint', ← ofDecimal?_zeros]
    rfl

/-- The point stands between digits. -/
theorem writes_positional_between (h : Leading digits) (hpoint : point ≤ 16) (hsmall : ¬ point ≤ 0)
    (hlong : ¬ digits.length ≤ point.toNat) :
    Writes (positional ['.', '0'] digits point) ⟨Nat.ofDigitChars 10 digits 0, point - digits.length⟩ := by
  intro sign
  have hdigital : Digital ⟨sign, digits.take point.toNat, some (digits.drop point.toNat), none⟩ := by
    refine ⟨fun c hc => h.isDigit c (List.mem_of_mem_take hc), ?_, nofun⟩
    rintro cs ⟨⟩ c hc
    exact h.isDigit c (List.mem_of_mem_drop hc)
  have hwhole : Json.isWhole (digits.take point.toNat) := by
    obtain ⟨c, cs, rfl⟩ := List.exists_cons_of_ne_nil h.ne_nil
    obtain ⟨k, hk⟩ : ∃ k, point.toNat = k + 1 := ⟨point.toNat - 1, by omega⟩
    rcases h.head with hhead | hcs
    · refine isWhole_of_head (by simp [hk]) ?_ ?_
      · rw [hk]
        exact hhead
      · simp [digitLimit]
        omega
    · obtain ⟨rfl, rfl⟩ := List.cons.inj hcs
      exact absurd (Nat.le_add_left 1 k) (hk ▸ hlong)
  refine ⟨_, rfl, ?_, hdigital, hwhole, ?_, rfl, ?_⟩
  · simp [written, positional, hsmall, hlong]
  · simpa using hlong
  · rw [coefficient_eq hdigital, Option.getD_some, List.take_append_drop, power]
    congr 2
    simp
    omega

private theorem writes_positional (h : Leading digits) (hpoint : point ≤ 16) (hzero : digits = ['0'] → point ≤ 1) :
    Writes (positional ['.', '0'] digits point) ⟨Nat.ofDigitChars 10 digits 0, point - digits.length⟩ := by
  by_cases hsmall : point ≤ 0
  · exact writes_positional_before h hsmall
  by_cases hlong : digits.length ≤ point.toNat
  · exact writes_positional_behind h hpoint hzero hsmall hlong
  · exact writes_positional_between h hpoint hsmall hlong

end Positional

/-- The digits of an exponent, of which there are two at least. -/
def exponentDigits (power : Int) : List Char :=
  let digits := Nat.toDigits 10 power.natAbs
  zeros (2 - digits.length) ++ digits

private theorem isDigit_exponentDigits (power : Int) : ∀ c ∈ exponentDigits power, c.isDigit :=
  fun c hc => (List.mem_append.1 hc).elim (isDigit_zeros _ c) (isDigit_toDigits _ c)

private theorem ofDigitChars_exponentDigits (power : Int) :
    Nat.ofDigitChars 10 (exponentDigits power) 0 = power.natAbs := by
  rw [exponentDigits, Nat.ofDigitChars_append, zeros, Nat.ofDigitChars_replicate_zero, Nat.mul_zero,
    Nat.ofDigitChars_ten_toDigits]

private theorem writes_scientific {digits : List Char} (h : Leading digits) (power : Int) :
    Writes (scientific digits power) ⟨Nat.ofDigitChars 10 digits 0, power + 1 - digits.length⟩ := by
  intro sign
  obtain ⟨first, further, rfl⟩ := List.exists_cons_of_ne_nil h.ne_nil
  let fraction : Option (List Char) := if further.isEmpty then none else some further
  let n : Numeral := ⟨sign, [first], fraction, some (some (decide (power < 0)), exponentDigits power)⟩
  have hfraction : fraction.getD [] = further := by cases further <;> rfl
  have hdigital : Digital n := by
    refine ⟨fun c hc => h.isDigit c (List.mem_singleton.1 hc ▸ List.mem_cons_self), fun cs hcs c hc => ?_, ?_⟩
    · have hc' : c ∈ further := by rwa [← hfraction, show fraction = some cs from hcs]
      exact h.isDigit c (List.mem_cons_of_mem first hc')
    · rintro s cs ⟨⟩
      exact ⟨List.append_ne_nil_of_right_ne_nil _ Nat.toDigits_ne_nil, isDigit_exponentDigits power⟩
  have hpower : n.power = power - (further.length : Int) := by
    change (if (some (decide (power < 0)) == some true) then _ else _) - ((fraction.getD []).length : Int) = _
    rw [hfraction, digitsFrom?_of_isDigit (isDigit_exponentDigits power), Option.getD_some,
      ofDigitChars_exponentDigits]
    have hsign : (some (decide (power < 0)) == some true) = decide (power < 0) := by
      cases decide (power < 0) <;> rfl
    rw [hsign]
    by_cases hnegative : power < 0
    · rw [if_pos (decide_eq_true hnegative)]
      omega
    · rw [if_neg (mt of_decide_eq_true hnegative)]
      omega
  refine ⟨n, rfl, ?_, hdigital, rfl, ?_, Bool.and_false _, ?_⟩
  · cases further <;> simp [n, fraction, written, scientific, signChars, exponentChars, exponentDigits]
  · cases further <;> simp [n, fraction]
  · rw [coefficient_eq hdigital, hpower]
    congr 2
    · exact congrArg (Nat.ofDigitChars 10 · 0) (congrArg (first :: ·) hfraction)
    · rw [List.length_cons]
      omega

/-- The layout of documents writes a numeral that stands for the decimal. -/
theorem writes_decimalChars {d : Decimal} (hd : d.digits = 0 → d.exponent = 0) :
    Writes (document.decimalChars d) d := by
  obtain ⟨value, exponent⟩ := d
  have hleading := leading_toDigits value
  have hvalue := Nat.ofDigitChars_ten_toDigits (n := value)
  have hzero : Nat.toDigits 10 value = ['0'] → exponent = 0 := by
    intro h
    rw [h] at hvalue
    exact hd (hvalue.symm.trans rfl)
  rw [decimalChars]
  generalize Nat.toDigits 10 value = digits at hleading hvalue hzero
  have hexponent (power : Int) (h : power = digits.length + exponent - 1) :
      exponent = power + 1 - digits.length := by omega
  simp only
  split
  · rename_i hrange
    have hpoint : (digits.length : Int) + exponent - 1 + 1 ≤ 16 := Int.add_le_add_right hrange.2 1
    have hone (h : digits = ['0']) : (digits.length : Int) + exponent - 1 + 1 ≤ 1 := by
      rw [hzero h, h]
      decide
    have hwrites := writes_positional hleading hpoint hone
    rwa [hvalue, ← hexponent _ rfl] at hwrites
  · have hwrites := writes_scientific hleading (digits.length + exponent - 1)
    rwa [hvalue, ← hexponent _ rfl] at hwrites

end NumberLayout

namespace Json
open Numeral

/-- The characters that end a word. -/
def wordEnds : List Char := ['[', ']', '\x7b', '\x7d', ',', ':', ' ', '\t', '\n', '\r', '\x22']

private theorem endsWord_eq_false {c : Char} (h : c ∉ wordEnds) : Lexer.endsWord c = false := by
  simp only [wordEnds, List.mem_cons, List.not_mem_nil, or_false, not_or] at h
  simp [Lexer.endsWord, mark?, isBlank, h]

private theorem endsWord_of_isDigit {c : Char} (h : c.isDigit) : Lexer.endsWord c = false := by
  have hends : wordEnds.any Char.isDigit = false := by decide
  exact endsWord_eq_false fun hc => List.any_eq_false.1 hends c hc h

private theorem endsWord_signChars (sign : Option Bool) : ∀ c ∈ signChars sign, Lexer.endsWord c = false := by
  match sign with
  | none => exact List.forall_mem_nil _
  | some true => exact List.forall_mem_singleton.2 (endsWord_eq_false (by decide))
  | some false => exact List.forall_mem_singleton.2 (endsWord_eq_false (by decide))

/-- A written numeral is one word. -/
theorem endsWord_written {n : Numeral} (hn : n.Digital) : ∀ c ∈ n.written, Lexer.endsWord c = false := by
  have hpoint : Lexer.endsWord '.' = false := endsWord_eq_false (by decide)
  have hmark : Lexer.endsWord 'e' = false := endsWord_eq_false (by decide)
  simp only [written, List.forall_mem_append]
  refine ⟨endsWord_signChars n.sign, fun c hc => endsWord_of_isDigit (hn.whole c hc), ?_, ?_⟩
  · cases hf : n.fraction with
    | none => exact List.forall_mem_nil _
    | some cs => exact List.forall_mem_cons.2 ⟨hpoint, fun c hc => endsWord_of_isDigit (hn.fraction cs hf c hc)⟩
  · cases he : n.exponent with
    | none => exact List.forall_mem_nil _
    | some e =>
      refine List.forall_mem_cons.2 ⟨hmark, List.forall_mem_append.2 ⟨endsWord_signChars e.1, ?_⟩⟩
      exact fun c hc => endsWord_of_isDigit ((hn.exponent e.1 e.2 he).2 c hc)

private theorem written_ne_nil {n : Numeral} (h : n.whole ≠ []) : n.written ≠ [] := by
  rw [written]
  simp [h]

/-- The sign that is written before a number. -/
def minusIf (negative : Bool) : Option Bool := if negative then some true else none

/-- A written numeral that stands for the shortest decimal of a number is read as that number. -/
theorem ofWord?_of_standsFor {n : Numeral} {negative : Bool} {x : Magnitude} (hsign : n.sign = minusIf negative)
    (h : n.StandsFor x.shortest) : ofWord? n.written = some (.float (.finite negative x)) := by
  have hnegative : n.isNegative = negative := by
    rw [isNegative, hsign]
    cases negative <;> rfl
  have hplus : n.sign ≠ some false := by
    rw [hsign]
    cases negative <;> nofun
  have hvalue : n.toBinary64 = .finite negative x := by
    rw [toBinary64, Binary64.ofDecimal_eq, h.value, Magnitude.ofDecimal?_shortest, hnegative]
    rfl
  rw [ofWord?, split?_written h.digital]
  simp [ofNumeral?, hplus, h.whole, h.fraction, h.marked, hvalue]

/-- A finite floating-point number is written as a numeral that stands for its shortest decimal. -/
theorem exists_numeral_float (negative : Bool) (x : Magnitude) : ∃ n : Numeral, n.sign = minusIf negative ∧
    NumberLayout.document.chars (.finite negative x) = n.written ∧ n.StandsFor x.shortest := by
  obtain ⟨n, hsign, hwritten, hstands⟩ :=
    NumberLayout.writes_decimalChars Magnitude.exponent_shortest (minusIf negative)
  refine ⟨n, hsign, ?_, hstands⟩
  rw [hwritten]
  cases negative <;> rfl

/-- What is written for a finite floating-point number is one word, which is read as that number. -/
theorem ofWord?_float (negative : Bool) (x : Magnitude) :
    let cs := NumberLayout.document.chars (.finite negative x)
    cs ≠ [] ∧ (∀ c ∈ cs, Lexer.endsWord c = false) ∧ ofWord? cs = some (.float (.finite negative x)) := by
  obtain ⟨n, hsign, hchars, hstands⟩ := exists_numeral_float negative x
  have hwhole : n.whole ≠ [] := fun h => by have := hstands.whole; rw [h] at this; cases this
  simp only [hchars]
  exact ⟨written_ne_nil hwhole, endsWord_written hstands.digital, ofWord?_of_standsFor hsign hstands⟩

/-- The numeral that is written for an integer. -/
def intNumeral (i : Int) : Numeral := ⟨minusIf (decide (i < 0)), Nat.toDigits 10 i.natAbs, none, none⟩

theorem digital_intNumeral (i : Int) : (intNumeral i).Digital := ⟨isDigit_toDigits _, nofun, nofun⟩

theorem written_intNumeral (i : Int) : (intNumeral i).written = (toString i).toList := by
  cases i with
  | ofNat m =>
    have hm : ¬ (m : Int) < 0 := by omega
    simp [intNumeral, written, signChars, minusIf, Int.toString_eq_repr, Int.repr, hm]
  | negSucc m => simp [intNumeral, written, signChars, minusIf, Int.toString_eq_repr, Int.repr]

/-- The numeral of an integer has its value. -/
theorem value_intNumeral (i : Int) :
    (if (intNumeral i).isNegative then -((intNumeral i).coefficient : Int) else (intNumeral i).coefficient) = i := by
  have hcoefficient : (intNumeral i).coefficient = i.natAbs := by
    rw [coefficient_eq (digital_intNumeral i)]
    simp [intNumeral]
  by_cases hi : i < 0
  · have hnegative : (intNumeral i).isNegative := by simp [intNumeral, isNegative, minusIf, hi]
    rw [if_pos hnegative, hcoefficient]
    omega
  · have hnegative : ¬ (intNumeral i).isNegative := by simp [intNumeral, isNegative, minusIf, hi]
    rw [if_neg hnegative, hcoefficient]
    omega

/-- What is written for an integer is one word. -/
theorem word_int (i : Int) : (toString i).toList ≠ [] ∧ ∀ c ∈ (toString i).toList, Lexer.endsWord c = false := by
  rw [← written_intNumeral]
  exact ⟨written_ne_nil Nat.toDigits_ne_nil, endsWord_written (digital_intNumeral i)⟩

/-- The word of an integer is read as that integer unless it is too long. -/
theorem ofWord?_int {i : Int} (h : Binary64.decimalLength i.natAbs ≤ digitLimit) :
    ofWord? (toString i).toList = some (.int i) := by
  have hwhole : isWhole (intNumeral i).whole := by
    change isWhole (Nat.toDigits 10 i.natAbs)
    rcases (leading_toDigits i.natAbs).head with hhead | hzero
    · exact isWhole_of_head Nat.toDigits_ne_nil hhead h
    · rw [hzero]
      rfl
  have hplus : (intNumeral i).sign ≠ some false := by
    by_cases hi : i < 0 <;> simp [intNumeral, minusIf, hi]
  have hint : ofNumeral? (intNumeral i) = some (.int (if (intNumeral i).isNegative
      then -((intNumeral i).coefficient : Int) else (intNumeral i).coefficient)) := by
    simp only [ofNumeral?, hplus, hwhole]
    simp [intNumeral]
  rw [ofWord?, ← written_intNumeral, split?_written (digital_intNumeral i)]
  exact hint.trans (by rw [value_intNumeral])

end Json

end Lockstep
