import Lockstep.Proofs.GoldenDocuments
import Lockstep.Proofs.PartialEquivalence

/-! Stored documents. Loading a file of JSON that holds the canonical text of a document undoes the rendering: what is
loaded is the document up to the order of entries, so it is equal to it and has the same canonical text. -/

namespace Lockstep

namespace Value
variable {room : Nat} {v w : Value}

/-- What can be stored has no undefined number in it. -/
theorem Storable.not_holds_nan (h : v.Storable room) : ¬ v.Holds (.float .nan) := by
  have hundefined {w : Value} (hw : w.IsScalar) (hne : w ≠ .float .nan) : ¬ w.Holds (.float .nan) :=
    mt hw.holds_iff.1 hne
  induction h with
  | null => exact hundefined .null (by simp)
  | bool _ b => exact hundefined (.bool b) (by simp)
  | int _ _ => exact hundefined (.int _) (by simp)
  | float _ negative x => exact hundefined (.float _) (by simp)
  | text _ s => exact hundefined (.text s) (by simp)
  | emptyList => simp [holds_sequence_iff (.float .nan)]
  | emptyObject => simp [holds_object_iff (.float .nan)]
  | list _ ih =>
    rw [holds_sequence_iff (.float .nan)]
    rintro ⟨x, hx, hnan⟩
    exact ih x hx hnan
  | object _ ih =>
    rw [holds_object_iff (.float .nan)]
    rintro ⟨f, hf, hnan⟩
    exact ih f hf hnan

/-- Reordered documents without undefined numbers are equal, whichever comes first. -/
theorem Reordered.jsonEqual (h : v.Reordered w) (hv : v.Plain) (hnan : ¬ v.Holds (.float .nan)) :
    w.jsonEqual v ∧ v.jsonEqual w := by
  have hback : w.jsonEqual v := h.jsonEqual_of (hv.data.jsonEqual_self_iff.2 hnan)
  exact ⟨hback, (h.plain hv).data.jsonEqual_symm hv.data hback⟩

end Value

/-- The suffix of files of JSON may be in any letter case. -/
theorem DocumentFormat.ofSuffix?_json {suffix : String} (h : suffix.map Char.toLower = ".json") :
    ofSuffix? suffix = some .json := by
  rw [ofSuffix?, h]
  rfl

/-- Loading undoes rendering. A document within the limits of the reader has a canonical text, and from any file of
JSON that holds this text in UTF-8 the document is loaded up to the order of the entries of objects, with every
scalar as it was. What is loaded is equal to the document and has the same canonical text. -/
theorem loading_undoes_rendering {v : Value} (hv : v.Plain) (hs : v.Storable Json.depthLimit) :
    ∃ text, v.render = .ok text ∧ ∀ (tree : FileTree) (p : Path), p.suffix.map Char.toLower = ".json" →
      p.isUsable → tree.open? p = some (.file (utf8Bytes text)) →
      ∃ w, loadDocument tree p = .ok w ∧ v.Reordered w ∧ w.Plain ∧ w.jsonEqual v ∧ v.jsonEqual w ∧
        w.render = .ok text := by
  have hrender := hv.render_eq hs.writable
  refine ⟨v.canonicalText, hrender, fun tree p hsuffix husable hopen => ?_⟩
  have hstored : tree.Stores p v.canonicalText := ⟨DocumentFormat.ofSuffix?_json hsuffix, husable, hopen⟩
  obtain ⟨w, hload, hreordered⟩ := hv.exists_loadDocument hs hstored
  obtain ⟨hback, hforth⟩ := hreordered.jsonEqual hv hs.not_holds_nan
  exact ⟨w, hload, hreordered, hreordered.plain hv, hback, hforth, (hreordered.render_eq hv).symm.trans hrender⟩

/-- A negative zero, a name with a line break, and a suffix in capitals. -/
theorem loading_undoes_rendering_zeros :
    let v : Value := .object [("zeros", .list [.int 0, .float (.finite true .zero)]), ("on\noff", .list [])]
    let tree : FileTree :=
      { home := ⟨"/", ["home"]⟩, entries := [(⟨"/", ["home", "Zeros.JSON"]⟩, .file (utf8Bytes v.canonicalText))] }
    v.Plain ∧ v.Storable Json.depthLimit ∧ v.render = .ok v.canonicalText ∧
      ∃ w, loadDocument tree (.ofText "Zeros.JSON") = .ok w ∧ v.Reordered w ∧ w.jsonEqual v ∧
        w.render = .ok v.canonicalText := by
  intro v tree
  have hv : v.Plain := by
    apply Value.Plain.object (by decide)
    simp only [List.forall_mem_cons]
    exact ⟨.list (by simpa using ⟨.int 0, .float _⟩), .list (List.forall_mem_nil _), List.forall_mem_nil _⟩
  have hs : v.Storable Json.depthLimit := by
    apply Value.Storable.pair
    · exact .list (by simpa using ⟨.int _ (by decide +kernel), .float _ true .zero⟩)
    · exact .emptyList _
  obtain ⟨text, hrender, hloads⟩ := loading_undoes_rendering hv hs
  obtain ⟨-, rfl⟩ := hv.render_eq_ok_iff.1 hrender
  obtain ⟨w, hload, hreordered, -, hequal, -, htext⟩ :=
    hloads tree (.ofText "Zeros.JSON") (by decide +kernel) (by decide +kernel) rfl
  exact ⟨hv, hs, hrender, w, hload, hreordered, hequal, htext⟩

end Lockstep
