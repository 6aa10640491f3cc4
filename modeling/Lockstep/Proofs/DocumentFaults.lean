import Lockstep.Proofs.CommandEndings
import Lockstep.Proofs.YamlDefects

/-! How loading a stored document fails. Most failures are document faults, which name the path and are told to the
user of a command. What is raised as it is are paths that no file can have, and in YAML files texts that are not
UTF-8 and scalars without a value. -/

namespace Lockstep

/-- Opening a path finds a file, which its suffix says is read in a format. -/
structure FileTree.Opens (tree : FileTree) (p : Path) (format : DocumentFormat) (data : List UInt8) : Prop where
  suffix : DocumentFormat.ofSuffix? p.suffix = some format
  usable : p.isUsable
  file : tree.open? p = some (.file data)

section Loading
variable {tree : FileTree} {p : Path}

/-- When a document is refused with a document fault. -/
inductive Refuses (tree : FileTree) (p : Path) : DocumentFault → Prop where
  | unsupported (h : DocumentFormat.ofSuffix? p.suffix = none) : Refuses tree p (.unsupported p.suffix)
  | unreadable {format : DocumentFormat} (hsuffix : DocumentFormat.ofSuffix? p.suffix = some format)
      (husable : p.isUsable) (h : ∀ data, tree.open? p ≠ some (.file data)) :
      Refuses tree p (.unreadable (tree.complaint p))
  | malformedJson {data : List UInt8} (hfile : tree.Opens p .json data) (h : Json.ofBytes? data = none) :
      Refuses tree p (.malformedJson (tree.complaint p))
  | malformedYaml {data : List UInt8} {s : String} (hfile : tree.Opens p .yaml data)
      (htext : String.fromUTF8? ⟨data.toArray⟩ = some s) (h : Yaml.ofText s = .error .malformed) :
      Refuses tree p (.malformedYaml (tree.complaint p))
  | notPlainData {data : List UInt8} {s : String} (hfile : tree.Opens p .yaml data)
      (htext : String.fromUTF8? ⟨data.toArray⟩ = some s) (h : Yaml.ofText s = .ok none) :
      Refuses tree p (.notPlainData (tree.complaint p))

/-- When loading a document raises a fault that is no document fault. -/
inductive Escapes (tree : FileTree) (p : Path) : Fault → Prop where
  | unusablePath {format : DocumentFormat} (hsuffix : DocumentFormat.ofSuffix? p.suffix = some format)
      (h : p.isUsable = false) : Escapes tree p .unusablePath
  | invalidUtf8 {data : List UInt8} (hfile : tree.Opens p .yaml data)
      (h : String.fromUTF8? ⟨data.toArray⟩ = none) : Escapes tree p .invalidUtf8
  | scalar {data : List UInt8} {s : String} {cause : ScalarFault} (hfile : tree.Opens p .yaml data)
      (htext : String.fromUTF8? ⟨data.toArray⟩ = some s) (h : Yaml.ofText s = .error (.scalar cause)) :
      Escapes tree p (.scalar cause)

theorem FileTree.Opens.loadDocument_eq {format : DocumentFormat} {data : List UInt8} (h : tree.Opens p format data) :
    loadDocument tree p = readDocument format p.text (tree.complaint p) data := by
  rw [loadDocument, h.suffix]
  simp only [h.usable, h.file, Bool.not_true, Bool.false_eq_true, if_false]

theorem Refuses.loadDocument_eq {cause : DocumentFault} (h : Refuses tree p cause) :
    loadDocument tree p = .error (.document p.text cause) := by
  cases h with
  | unsupported h => rw [loadDocument, h]
  | unreadable hsuffix husable h =>
    rw [loadDocument, hsuffix]
    cases hopen : tree.open? p with
    | none => simp only [husable, Bool.not_true, Bool.false_eq_true, if_false]
    | some entry => cases entry with
      | directory => simp only [husable, Bool.not_true, Bool.false_eq_true, if_false]
      | file data => exact absurd hopen (h data)
  | malformedJson hfile h => rw [hfile.loadDocument_eq, readDocument, readJson, h]
  | malformedYaml hfile htext h => rw [hfile.loadDocument_eq, readDocument, readYaml, htext]; simp only [h]
  | notPlainData hfile htext h => rw [hfile.loadDocument_eq, readDocument, readYaml, htext]; simp only [h]

theorem Escapes.loadDocument_eq {fault : Fault} (h : Escapes tree p fault) : loadDocument tree p = .error fault := by
  cases h with
  | unusablePath hsuffix h =>
    rw [loadDocument, hsuffix]
    simp only [h, Bool.not_false, if_true]
  | invalidUtf8 hfile h => rw [hfile.loadDocument_eq, readDocument, readYaml, h]
  | scalar hfile htext h => rw [hfile.loadDocument_eq, readDocument, readYaml, htext]; simp only [h]

/-- A document is loaded, refused, or something escapes. -/
theorem loads_or_refuses_or_escapes (tree : FileTree) (p : Path) :
    (∃ d, loadDocument tree p = .ok d) ∨ (∃ cause, Refuses tree p cause) ∨ ∃ fault, Escapes tree p fault := by
  cases hsuffix : DocumentFormat.ofSuffix? p.suffix with
  | none => exact .inr (.inl ⟨_, .unsupported hsuffix⟩)
  | some format =>
    by_cases husable : p.isUsable
    · by_cases hfile : ∃ data, tree.open? p = some (.file data)
      · obtain ⟨data, hfile⟩ := hfile
        have hopens : tree.Opens p format data := ⟨hsuffix, husable, hfile⟩
        cases format with
        | json => cases hread : Json.ofBytes? data with
          | none => exact .inr (.inl ⟨_, .malformedJson hopens hread⟩)
          | some d => exact .inl ⟨d, by rw [hopens.loadDocument_eq, readDocument, readJson, hread]⟩
        | yaml => cases htext : String.fromUTF8? ⟨data.toArray⟩ with
          | none => exact .inr (.inr ⟨_, .invalidUtf8 hopens htext⟩)
          | some s => cases hread : Yaml.ofText s with
            | ok d? => cases d? with
              | none => exact .inr (.inl ⟨_, .notPlainData hopens htext hread⟩)
              | some d =>
                refine .inl ⟨d, ?_⟩
                rw [hopens.loadDocument_eq, readDocument, readYaml, htext]
                simp only [hread]
            | error defect => cases defect with
              | malformed => exact .inr (.inl ⟨_, .malformedYaml hopens htext hread⟩)
              | scalar cause => exact .inr (.inr ⟨_, .scalar hopens htext hread⟩)
      · exact .inr (.inl ⟨_, .unreadable hsuffix husable fun data h => hfile ⟨data, h⟩⟩)
    · exact .inr (.inr ⟨_, .unusablePath hsuffix (by simpa using husable)⟩)

theorem loadDocument_eq_error_iff {fault : Fault} : loadDocument tree p = .error fault ↔
    (∃ cause, fault = .document p.text cause ∧ Refuses tree p cause) ∨ Escapes tree p fault := by
  constructor
  · intro h
    rcases loads_or_refuses_or_escapes tree p with ⟨d, hd⟩ | ⟨cause, hcause⟩ | ⟨fault', hfault⟩
    · rw [hd] at h; cases h
    · rw [hcause.loadDocument_eq] at h; cases h; exact .inl ⟨cause, rfl, hcause⟩
    · rw [hfault.loadDocument_eq] at h; cases h; exact .inr hfault
  · rintro (⟨cause, rfl, hcause⟩ | hfault)
    · exact hcause.loadDocument_eq
    · exact hfault.loadDocument_eq

/-- Nothing escapes where a file of JSON is found. -/
theorem FileTree.Opens.not_escapes {data : List UInt8} (h : tree.Opens p .json data) {fault : Fault} :
    ¬ Escapes tree p fault := by
  intro hfault
  cases hfault with
  | unusablePath hsuffix hp => rw [h.usable] at hp; cases hp
  | invalidUtf8 hfile _ => exact absurd (h.suffix.symm.trans hfile.suffix) (by decide)
  | scalar hfile _ _ => exact absurd (h.suffix.symm.trans hfile.suffix) (by decide)

end Loading

open Command in
/-- What becomes of loading a stored document. It is loaded or refused with a document fault, unless the path is one
that no file can have, or a YAML file holds bytes that are not UTF-8 or something without a value. A command tells
document faults with status two, and lets everything else escape. -/
theorem loading_faults (tree : FileTree) (p : Path) :
    (∀ fault, loadDocument tree p = .error fault ↔
      (∃ cause, fault = .document p.text cause ∧ Refuses tree p cause) ∨ Escapes tree p fault) ∧
    (((∃ d, loadDocument tree p = .ok d) ∨ ∃ cause, loadDocument tree p = .error (.document p.text cause)) ↔
      ∀ fault, ¬ Escapes tree p fault) ∧
    (∀ data fault, tree.Opens p .json data → ¬ Escapes tree p fault) ∧
    (∀ cause, Escapes tree p (.scalar cause) → ∃ data s, tree.Opens p .yaml data ∧
      String.fromUTF8? ⟨data.toArray⟩ = some s ∧ Yaml.Origin (Yaml.normalizeBreaks s.toList) (.scalar cause)) ∧
    (∀ data s cause, tree.Opens p .yaml data → String.fromUTF8? ⟨data.toArray⟩ = some s →
      Yaml.LoneScalar s (.scalar cause) → Escapes tree p (.scalar cause)) ∧
    ∀ args s program host document, readArguments args = .ok (.run s) → s.document = some document →
      p = .ofText document → s.Names tree program host →
      (∀ cause, Refuses tree p cause →
        (run tree args).ending = .refused (cause.message p.text) ∧ (run tree args).ending.status = .ok 2) ∧
      ∀ fault, Escapes tree p fault →
        (run tree args).ending = .escaped fault ∧ (run tree args).ending.status = .error fault := by
  refine ⟨fun fault => loadDocument_eq_error_iff, ⟨?_, ?_⟩, fun data fault hopens => hopens.not_escapes, ?_, ?_, ?_⟩
  · intro hwell fault hfault
    have hload := hfault.loadDocument_eq
    rcases hwell with ⟨d, hd⟩ | ⟨cause, hcause⟩
    · rw [hd] at hload; cases hload
    · rw [hcause] at hload; cases hload; cases hfault
  · intro hnone
    rcases loads_or_refuses_or_escapes tree p with hd | ⟨cause, hcause⟩ | ⟨fault, hfault⟩
    · exact .inl hd
    · exact .inr ⟨cause, hcause.loadDocument_eq⟩
    · exact absurd hfault (hnone fault)
  · intro cause hfault
    cases hfault with
    | @scalar data s _ hfile htext h =>
      exact ⟨data, s, hfile, htext, (Yaml.ofText_eq_error h).resolve_left nofun⟩
  · exact fun data s cause hopens htext hlone => .scalar hopens htext hlone.ofText_eq
  · rintro args s program host document hargs hd rfl names
    have hending (fault : Fault) (h : loadDocument tree (.ofText document) = .error fault) :
        (run tree args).ending = .ofFault fault := ending_of_raises hargs (.document names hd h)
    refine ⟨fun cause hcause => ?_, fun fault hfault => ?_⟩
    · rw [hending _ hcause.loadDocument_eq]
      exact ⟨rfl, rfl⟩
    · rw [hending _ hfault.loadDocument_eq]
      cases hfault <;> exact ⟨rfl, rfl⟩

/-- Bytes that are not UTF-8, a date that there is not, and a path with a null character: none of them is told as a
document fault. -/
theorem loading_faults_escaping :
    let tree : FileTree := { home := ⟨"/", ["home"]⟩, entries := [(⟨"/", ["home", "a.yaml"]⟩, .file [0xff]),
      (⟨"/", ["home", "b.yaml"]⟩, .file (utf8Bytes "2024-02-30"))] }
    loadDocument tree (.ofText "a.yaml") = .error .invalidUtf8 ∧
      loadDocument tree (.ofText "b.yaml") = .error (.scalar .impossibleDate) ∧
      loadDocument tree (.ofText "\x00.json") = .error .unusablePath ∧
      ¬ ∀ tree p fault, loadDocument tree p = .error fault → ∃ cause, fault = .document p.text cause := by
  intro tree
  have hbytes : loadDocument tree (.ofText "a.yaml") = .error .invalidUtf8 :=
    faultOf_eq_some_iff.1 (by decide +kernel)
  have hdate : loadDocument tree (.ofText "b.yaml") = .error (.scalar .impossibleDate) :=
    faultOf_eq_some_iff.1 (by decide +kernel)
  have hpath : loadDocument tree (.ofText "\x00.json") = .error .unusablePath :=
    faultOf_eq_some_iff.1 (by decide +kernel)
  refine ⟨hbytes, hdate, hpath, fun h => ?_⟩
  obtain ⟨cause, hcause⟩ := h _ _ _ hbytes
  cases hcause

end Lockstep
