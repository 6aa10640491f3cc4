import Lockstep.Proofs.DocumentReading

/-! Canonical texts are printable. Control characters are written as escapes inside of quoted texts, and nothing
else that is written has any, so the canonical text of a document stands on one line. -/

namespace Lockstep

/-- There is no control character in a text. -/
def Printable (cs : List Char) : Prop := ∀ c ∈ cs, ' ' ≤ c

instance (cs : List Char) : Decidable (Printable cs) := List.decidableBAll (fun c => ' ' ≤ c) cs

section Printable
variable {c : Char} {cs ds : List Char}

@[simp] theorem printable_nil : Printable [] := List.forall_mem_nil _

@[simp] theorem printable_cons : Printable (c :: cs) ↔ ' ' ≤ c ∧ Printable cs := List.forall_mem_cons

@[simp] theorem printable_append : Printable (cs ++ ds) ↔ Printable cs ∧ Printable ds := List.forall_mem_append

theorem Printable.of_isDigit (h : ∀ c ∈ cs, c.isDigit) : Printable cs := by
  intro c hc
  obtain ⟨hlow, -⟩ := Bool.and_eq_true_iff.1 (h c hc)
  have hzero : '0' ≤ c := of_decide_eq_true hlow
  exact le_trans (by decide) hzero

private theorem printable_intercalate {ss : List String} (h : ∀ s ∈ ss, Printable s.toList) :
    Printable (",".intercalate ss).toList := by
  cases ss with
  | nil => exact printable_nil
  | cons s ss =>
    obtain ⟨hs, hss⟩ := List.forall_mem_cons.1 h
    rw [Json.toList_intercalate_cons, printable_append]
    refine ⟨hs, fun c hc => ?_⟩
    obtain ⟨t, ht, hct⟩ := List.mem_flatMap.1 hc
    have hpart : Printable (',' :: t.toList) := printable_cons.2 ⟨by decide, hss t ht⟩
    exact hpart c hct

end Printable

namespace Numeral

private theorem printable_signChars (sign : Option Bool) : Printable (signChars sign) := by
  match sign with
  | none => exact printable_nil
  | some true => decide
  | some false => decide

private theorem Digital.printable_written {n : Numeral} (hn : n.Digital) : Printable n.written := by
  rw [written, printable_append, printable_append, printable_append]
  refine ⟨printable_signChars n.sign, .of_isDigit hn.whole, ?_, ?_⟩
  · cases hf : n.fraction with
    | none => exact printable_nil
    | some cs => exact printable_cons.2 ⟨by decide, .of_isDigit (hn.fraction cs hf)⟩
  · cases he : n.exponent with
    | none => exact printable_nil
    | some e =>
      have hdigits : Printable e.2 := .of_isDigit (hn.exponent e.1 e.2 he).2
      exact printable_cons.2 ⟨by decide, printable_append.2 ⟨printable_signChars e.1, hdigits⟩⟩

end Numeral

namespace Json

private theorem printable_int (i : Int) : Printable (toString i).toList := by
  rw [← written_intNumeral]
  exact (digital_intNumeral i).printable_written

private theorem printable_float (x : Binary64) : Printable (NumberLayout.document.text x).toList := by
  rw [NumberLayout.text, String.toList_ofList]
  cases x with
  | nan => decide
  | infinite negative =>
    revert negative
    decide
  | finite negative x =>
    obtain ⟨n, -, hchars, hstands⟩ := exists_numeral_float negative x
    rw [hchars]
    exact hstands.digital.printable_written

private theorem printable_hexDigits : ∀ n < 32, Printable (hexDigits 4 n) := by decide

private theorem printable_escapedChar (c : Char) : Printable (escapedChar c) := by
  rw [escapedChar]
  split_ifs with hquote hslash hline hreturn htab hback hfeed hcontrol
  on_goal 8 => exact printable_cons.2 ⟨by decide, printable_cons.2 ⟨by decide, printable_hexDigits _ hcontrol⟩⟩
  on_goal 8 => exact printable_cons.2 ⟨not_lt.1 hcontrol, printable_nil⟩
  -- Two characters stand for each of the others.
  all_goals decide

/-- Quoting escapes every control character. -/
theorem printable_quote (s : String) : Printable (quote s).toList := by
  have hescaped : Printable (s.toList.flatMap escapedChar) := by
    intro c hc
    obtain ⟨d, -, hcd⟩ := List.mem_flatMap.1 hc
    exact printable_escapedChar d c hcd
  rw [quote, String.toList_ofList, printable_cons, printable_append]
  exact ⟨by decide, hescaped, by decide⟩

end Json

namespace Value

/-- The canonical text of plain data is printable. -/
theorem Plain.printable_canonicalText {v : Value} (h : v.Plain) : Printable v.canonicalText.toList := by
  induction h with
  | null => decide
  | bool b => revert b; decide
  | int n =>
    rw [canonicalText]
    exact Json.printable_int n
  | float x =>
    rw [canonicalText]
    exact Json.printable_float x
  | text s =>
    rw [canonicalText]
    exact Json.printable_quote s
  | @list items hitems ih =>
    rw [canonicalText_list]
    simp only [String.toList_append, printable_append]
    refine ⟨⟨by decide, printable_intercalate ?_⟩, by decide⟩
    simpa using ih
  | @object fields _ hfields ih =>
    rw [canonicalText_object]
    simp only [String.toList_append, printable_append]
    refine ⟨⟨by decide, printable_intercalate (List.forall_mem_map.2 fun r hr => ?_)⟩, by decide⟩
    obtain ⟨f, hf, rfl⟩ := List.mem_map.1 ((List.mergeSort_perm _ inNameOrder).mem_iff.1 hr)
    simp only [fieldText, String.toList_append, printable_append]
    exact ⟨⟨Json.printable_quote f.1, by decide⟩, ih f hf⟩

end Value

end Lockstep
