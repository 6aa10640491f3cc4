import Lockstep.Program.Equality
import Lockstep.Proofs.PartialEquivalence
import Lockstep.Proofs.PrintableTexts
import Lockstep.Proofs.UniqueReading

/-! Rejections that show a difference. What rejects a node for not being equal to a document is told in two lines, one
for each side. Equality and texts are computed apart from each other, but documents with the same text are equal, so
the two lines are never alike. -/

namespace Lockstep

/-- The lines of a text, between its line breaks. -/
def linesOf (s : String) : List String := (s.toList.splitOn '\n').map String.ofList

section Lines
variable {s t : String}

/-- A printable text has no line break. -/
theorem Printable.newline_not_mem {cs : List Char} (h : Printable cs) : '\n' ∉ cs := by
  intro hmem
  have hcontrol : ¬ ' ' ≤ '\n' := by decide
  exact hcontrol (h '\n' hmem)

/-- Printable texts on both sides stand on one line each. -/
theorem linesOf_differenceText (hs : Printable s.toList) (ht : Printable t.toList) :
    linesOf (differenceText s t) = ["Expected: " ++ s, "     Got: " ++ t] := by
  have hexpected : Printable ("Expected: " ++ s).toList := by
    rw [String.toList_append, printable_append]
    exact ⟨by decide, hs⟩
  have hgot : Printable ("     Got: " ++ t).toList := by
    rw [String.toList_append, printable_append]
    exact ⟨by decide, ht⟩
  have htext : (differenceText s t).toList = ("Expected: " ++ s).toList ++ '\n' :: ("     Got: " ++ t).toList := by
    simp [differenceText]
  rw [linesOf, htext, List.splitOn_append_cons_self_of_not_mem hexpected.newline_not_mem,
    List.splitOn_eq_singleton hgot.newline_not_mem, List.map_cons, List.map_singleton, String.ofList_toList,
    String.ofList_toList]

end Lines

namespace Value
variable {expected actual : Value}

/-- Where documents have the same text, a node is equal to what is expected, unless an undefined number is. -/
theorem Plain.jsonEqual_of_canonicalText (he : expected.Plain) (ha : actual.Plain)
    (hnan : ¬ expected.Holds (.float .nan)) (h : expected.canonicalText = actual.canonicalText) :
    actual.jsonEqual expected := by
  have hself : expected.jsonEqual expected := he.data.jsonEqual_self_iff.2 hnan
  exact (he.reordered_of_canonicalText ha h).jsonEqual_of hself

end Value

/-- A rejection shows what is different. The assertion accepts the nodes that are equal to the encoding, and where it
rejects a node there are texts of both. Wherever there are, they have no control characters, a node with the same
text is equal, and an unequal one is rejected with two lines that differ behind their beginnings. -/
theorem rejection_shows_difference {encoder : Encoder} {host expected actual : Value}
    (hencoded : encoder host = .ok expected) (he : expected.Plain) (ha : actual.Plain)
    (hnan : ¬ expected.Holds (.float .nan)) :
    ∃ predicate, Program.assertEqual host encoder = .ok (.require predicate) ∧
      (actual.jsonEqual expected → predicate actual = .ok none) ∧
      (∀ message, predicate actual = .ok (some message) → ¬ actual.jsonEqual expected ∧
        (∃ s, expected.render = .ok s) ∧ ∃ t, actual.render = .ok t) ∧
      ∀ s t, expected.render = .ok s → actual.render = .ok t →
        Printable s.toList ∧ Printable t.toList ∧ (s = t → actual.jsonEqual expected) ∧
        (¬ actual.jsonEqual expected → ∃ message, predicate actual = .ok (some message) ∧
          linesOf message = ["Expected: " ++ s, "     Got: " ++ t] ∧ s ≠ t) := by
  have hprogram : Program.assertEqual host encoder = .ok (.require (equalTo expected)) := by
    rw [Program.assertEqual, hencoded]
    rfl
  refine ⟨equalTo expected, hprogram, equalTo_of_equal, fun message hmessage => ?_, fun s t hs ht => ?_⟩
  · obtain ⟨hdifferent, s, t, hs, ht, -⟩ := equalTo_eq_some_iff.1 hmessage
    exact ⟨hdifferent, ⟨s, hs⟩, t, ht⟩
  · obtain ⟨-, rfl⟩ := he.render_eq_ok_iff.1 hs
    obtain ⟨-, rfl⟩ := ha.render_eq_ok_iff.1 ht
    have hsame := he.jsonEqual_of_canonicalText ha hnan
    have hexpected := he.printable_canonicalText
    have hactual := ha.printable_canonicalText
    refine ⟨hexpected, hactual, hsame, fun hdifferent => ?_⟩
    exact ⟨_, equalTo_eq_some_iff.2 ⟨hdifferent, _, _, hs, ht, rfl⟩, linesOf_differenceText hexpected hactual,
      mt hsame hdifferent⟩

/-- A line break inside of a text, and a number that counts as a boolean elsewhere. -/
theorem rejection_shows_difference_flags :
    let host : Value := .sequence .tuple [.int 1, .text "on\noff"]
    let expected : Value := .list [.int 1, .text "on\noff"]
    let actual : Value := .list [.bool true, .text "on\noff"]
    host.encode = .ok expected ∧ expected.Plain ∧ actual.Plain ∧ ¬ expected.Holds (.float .nan) ∧
      ¬ actual.jsonEqual expected ∧
      ∃ predicate s t message, Program.assertEqual host = .ok (.require predicate) ∧
        expected.render = .ok s ∧ actual.render = .ok t ∧ predicate actual = .ok (some message) ∧
        linesOf message = ["Expected: " ++ s, "     Got: " ++ t] ∧ s ≠ t := by
  intro host expected actual
  have hencoded : host.encode = .ok expected := rfl
  have he : expected.Plain := .list (by simpa using ⟨.int 1, .text _⟩)
  have ha : actual.Plain := .list (by simpa using ⟨.bool true, .text _⟩)
  have hnan : ¬ expected.Holds (.float .nan) := by
    rw [← he.data.jsonEqual_self_iff]
    decide +kernel
  have hdifferent : ¬ actual.jsonEqual expected := by decide +kernel
  have htext : (Value.text "on\noff").Writable := (Value.IsScalar.text _).writable nofun
  have hone : (Value.int 1).Writable := Value.writable_int_iff.2 (by decide)
  have htrue : (Value.bool true).Writable := (Value.IsScalar.bool _).writable nofun
  obtain ⟨s, hs⟩ := he.exists_render_iff.2 (Value.writable_list_iff.2 (by simpa using ⟨hone, htext⟩))
  obtain ⟨t, ht⟩ := ha.exists_render_iff.2 (Value.writable_list_iff.2 (by simpa using ⟨htrue, htext⟩))
  obtain ⟨predicate, hprogram, -, -, htexts⟩ := rejection_shows_difference hencoded he ha hnan
  obtain ⟨-, -, -, hreject⟩ := htexts s t hs ht
  obtain ⟨message, hmessage, hlines, hne⟩ := hreject hdifferent
  exact ⟨hencoded, he, ha, hnan, hdifferent, predicate, s, t, message, hprogram, hs, ht, hmessage, hlines, hne⟩

end Lockstep
