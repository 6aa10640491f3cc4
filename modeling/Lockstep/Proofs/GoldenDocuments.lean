import Lockstep.Proofs.CommandLines
import Lockstep.Proofs.DocumentReading
import Lockstep.Proofs.EncodedDocuments
import Lockstep.Proofs.ModuleFiles
import Lockstep.Proofs.ParallelRuns

/-! Documents that are stored and replayed. The canonical text of a fresh encoding, stored in a file, is loaded
as the encoding up to the order of entries, and programs that only compare nodes with values cannot tell the
two apart. So a command line ends alike with the stored document and without it. -/

namespace Lockstep

/-- A text is stored in a file for JSON documents that opening a path finds. -/
structure FileTree.Stores (tree : FileTree) (p : Path) (text : String) : Prop where
  isJson : DocumentFormat.ofSuffix? p.suffix = some .json
  isUsable : p.isUsable
  opened : tree.open? p = some (.file (utf8Bytes text))

theorem FileTree.Stores.loadDocument_eq {tree : FileTree} {p : Path} {text : String} {v : Value}
    (h : tree.Stores p text) (hv : Json.ofText? text = some v) : loadDocument tree p = .ok v := by
  have hread : readJson p.text (tree.complaint p) (utf8Bytes text) = .ok v := by
    rw [readJson, Json.ofBytes?_utf8Bytes, hv]
  rw [loadDocument, h.isJson]
  simp only [h.isUsable, h.opened, Bool.not_true, Bool.false_eq_true, if_false]
  exact hread

/-- Stored plain data is loaded up to the order of its entries. -/
theorem Value.Plain.exists_loadDocument {d : Value} (hd : d.Plain) (hs : d.Storable Json.depthLimit)
    {tree : FileTree} {p : Path} (h : tree.Stores p d.canonicalText) :
    ∃ loaded, loadDocument tree p = .ok loaded ∧ d.Reordered loaded :=
  let ⟨w, hw, hdw⟩ := hd.exists_ofText? hs
  ⟨w, h.loadDocument_eq hw, hdw⟩

namespace Command

/-- What the settings of a command line name. -/
def Settings.Names (s : Settings) (tree : FileTree) (program : Program) (host : Value) : Prop :=
  ((loadBoth tree (s.program.getD "") (s.host.getD "")).run .start).1 = .ok (program, host)

section Endings
variable {tree : FileTree} {s : Settings} {program : Program} {host : Value}

private theorem runSettings_encoding (hnames : s.Names tree program host) (hnone : s.document = none) :
    runSettings tree s = checkEncoding s.options program host := by
  rw [runSettings, hnames, hnone]

private theorem runSettings_document (hnames : s.Names tree program host) (document : String) :
    runSettings tree (s.assign .document document) = checkDocument tree s.options program host document := by
  have hsame : ((loadBoth tree ((s.assign .document document).program.getD "")
      ((s.assign .document document).host.getD "")).run .start).1 = .ok (program, host) := hnames
  rw [runSettings, hsame]
  rfl

/-- If replaying a document reports what a fresh run does, the two checks end alike. -/
theorem ending_checkDocument {options : RunOptions} {document : String} {loaded : Value}
    (hload : loadDocument tree (.ofText document) = .ok loaded)
    (hrun : runTest program host Value.encode options = .ok (interpret options program loaded host)) :
    (checkDocument tree options program host document).ending = (checkEncoding options program host).ending := by
  simp only [checkDocument, checkEncoding, hload, hrun]
  rfl

end Endings

end Command

open Command

/-- Replaying a golden document agrees with encoding afresh. Wherever the canonical text of an encoding is stored, a
program that only compares nodes with values reports on what is loaded what it reports on the fresh encoding, and a
command line that names the stored document ends as the one that names none. -/
theorem replay_agrees {program : Program} (hp : program.Checking Program.IsComparison) {host d : Value}
    (hd : host.encode = .ok d) (hs : d.Storable Json.depthLimit) :
    ∃ text, d.render = .ok text ∧ ∀ (tree : FileTree) (p : Path), tree.Stores p text →
      (∃ loaded, loadDocument tree p = .ok loaded ∧ ∀ options,
        runTest program host Value.encode options = .ok (interpret options program loaded host) ∧
        (runTest program host Value.encode options).bind (Report.messages options) =
          (interpret options program loaded host).messages options) ∧
      ∀ (args args' : List String) (s : Settings) (document : String), .ofText document = p →
        readArguments args = .ok (.run s) → s.document = none → s.Names tree program host →
        readArguments args' = .ok (.run { s with document := some document }) →
        (run tree args').ending = (run tree args).ending := by
  have hplain : d.Plain := Value.encodeAt_plain hd
  refine ⟨d.canonicalText, hplain.render_eq hs.writable, fun tree p hstored => ?_⟩
  -- What is loaded is the encoding with its entries in another order, which no comparison can see.
  obtain ⟨loaded, hload, hreordered⟩ := hplain.exists_loadDocument hs hstored
  have hrun (options : RunOptions) :
      runTest program host Value.encode options = .ok (interpret options program loaded host) := by
    rw [runTest, hd, ← interpret_reordered hp hplain hreordered]
    rfl
  refine ⟨⟨loaded, hload, fun options => ⟨hrun options, by rw [hrun]; rfl⟩⟩, ?_⟩
  rintro args args' s document rfl hargs hnone hnames hargs'
  calc (run tree args').ending
      = (runSettings tree (s.assign .document document)).ending := ending_run hargs'
    _ = (checkDocument tree s.options program host document).ending := by rw [runSettings_document hnames]
    _ = (checkEncoding s.options program host).ending := ending_checkDocument hload (hrun s.options)
    _ = (runSettings tree s).ending := by rw [runSettings_encoding hnames hnone]
    _ = (run tree args).ending := (ending_run hargs).symm

theorem replay_agrees_age :
    let host : Value := .object [("age", .int 36)]
    let program : Program := .require (equalTo host)
    let asserted : Value := .object [("expected", .object [("lit", host)]), ("p", .text "assert_equal")]
    let checks : Value := .object [("attrs", .object
      [("HOST", .object [("value", host)]), ("PROGRAM", .object [("program", asserted)])])]
    let tree : FileTree := { home := ⟨"/", ["home"]⟩, entries := [
      (⟨"/", ["home", "checks.py"]⟩, .file (utf8Bytes checks.canonicalText)),
      (⟨"/", ["home", "golden.json"]⟩, .file (utf8Bytes host.canonicalText))] }
    let args := ["--program=checks.py:PROGRAM", "--host=checks.py:HOST"]
    host.encode = .ok host ∧ host.Storable Json.depthLimit ∧
      tree.Stores (.ofText "golden.json") host.canonicalText ∧
      (∃ loaded, loadDocument tree (.ofText "golden.json") = .ok loaded ∧
        runTest program host = .ok (interpret {} program loaded host)) ∧
      (run tree ("--document=golden.json" :: args)).ending = (run tree args).ending := by
  intro host program asserted checks tree args
  have hage (room : Nat) : host.Storable (room + 1) := .singleton _ (.int room (by decide +kernel))
  have hstored : tree.Stores (.ofText "golden.json") host.canonicalText :=
    ⟨by decide +kernel, by decide +kernel, rfl⟩
  have hread : Json.ofText? checks.canonicalText = some checks := by
    have hordered : host.Ordered := .singleton _ (.int 36)
    refine Json.ofText?_canonicalText (.singleton _ (.pair (by decide) (.singleton _ hordered) ?_)) ?_
    · exact .singleton _ (.pair (by decide) (.singleton _ hordered) (.text _))
    · have hasserted : asserted.Storable 197 := .pair _ _ (.singleton _ (hage _)) (.text _ _)
      exact .singleton _ (.pair _ _ (.singleton _ (hage _)) (.singleton _ hasserted))
  have hsource : findSource tree (.resolve tree.home (.ofText "checks.py")) =
      .ok [.define "HOST" (.value host), .define "PROGRAM" (.program (.assertEqual (.lit host) .standard))] := by
    have hvalue : Notation.value? host = some host := by
      simp [host, Value.object, Notation.value?, Notation.entryValues?, Notation.ofFields?, Notation.Fields.get?,
        Value.findEntry?]
    have hsuffix : (Path.resolve tree.home (.ofText "checks.py")).name.endsWith ".py" := by
      change (Path.resolve ⟨"/", ["home"]⟩ (.ofText "checks.py")).name.endsWith ".py" = true
      decide +kernel
    refine findSource_of_text rfl hsuffix hread ?_
    rw [Notation.source?_attrs]
    simp [Notation.definition?_value, Notation.definition?_program, Notation.spec?_assertEqual, hvalue, asserted]
  have hwords : classifyAll args = .ok [.option .program (.value "checks.py:PROGRAM"),
      .option .host (.value "checks.py:HOST")] := by decide +kernel
  have hargs : readArguments args =
      .ok (.run ⟨some "checks.py:PROGRAM", some "checks.py:HOST", none, "subject", false, false⟩) := by
    rw [readArguments, hwords]
    rfl
  have hnames : ((loadBoth tree "checks.py:PROGRAM" "checks.py:HOST").run .start).1 = .ok (program, host) :=
    loadBoth_eq "checks.py" "PROGRAM" "HOST" rfl rfl (by decide +kernel) hsource rfl rfl rfl
  have hencoded : host.encode = .ok host := rfl
  have hcomparison : program.Checking Program.IsComparison := .check ⟨host, rfl⟩ (.done .null)
  obtain ⟨text, hrender, hreplay⟩ := replay_agrees hcomparison hencoded (hage _)
  have hplain : host.Plain := .object (by decide) (by simpa using .int 36)
  obtain ⟨-, rfl⟩ := hplain.render_eq_ok_iff.1 hrender
  obtain ⟨⟨loaded, hload, hrun⟩, hcommand⟩ := hreplay tree (.ofText "golden.json") hstored
  exact ⟨hencoded, hage _, hstored, ⟨loaded, hload, (hrun {}).1⟩,
    hcommand args _ _ "golden.json" rfl hargs rfl hnames (readArguments_document hargs rfl "golden.json")⟩

end Lockstep
