import Lockstep.Proofs.ModuleLoading
import Lockstep.Proofs.PlainDocuments

/-! Modules written as JSON data, and how their attributes are loaded. The part of an object under a key is the
field of that name, and a file is executed once for the attributes that are loaded together. -/

namespace Lockstep

namespace Notation

private theorem map_part?_dict (entries : List (Value × Value)) (name : String) :
    (part? (.dict entries) name).map Subtype.val =
      (entries.find? fun e => e.1.same (.text name)).map (·.2) := by
  have hfind : (entries.attach.find? fun e => e.1.1.same (.text name)).map Subtype.val =
      entries.find? fun e => e.1.same (.text name) := by
    rw [List.find?_subtype (g := fun e => e.1.same (.text name)) fun _ _ => rfl, List.unattach_attach]
  rw [← hfind, Option.map_map, part?, Option.map_map]
  rfl

/-- The part of an object under a key is the field of that name. -/
theorem map_part?_object (fields : List (String × Value)) (name : String) :
    (part? (.object fields) name).map Subtype.val = fields.lookup name := by
  have hpart := map_part?_dict (fields.map fun f => (.text f.1, f.2)) name
  refine hpart.trans ?_
  induction fields with
  | nil => rfl
  | cons f fields ih =>
    rw [List.map_cons, List.lookup_cons, ← ih (map_part?_dict _ name), List.find?_cons, Value.same_text,
      BEq.comm]
    cases name == f.1 <;> rfl

private theorem exists_part? (fields : List (String × Value)) (name : String) {v : Value}
    (h : fields.lookup name = some v) : ∃ hv, part? (.object fields) name = some ⟨v, hv⟩ := by
  rw [← map_part?_object] at h
  obtain ⟨⟨_, hv⟩, hpart, rfl⟩ := Option.map_eq_some_iff.1 h
  exact ⟨hv, hpart⟩

private theorem part?_eq_none (fields : List (String × Value)) (name : String) (h : fields.lookup name = none) :
    part? (.object fields) name = none := by
  rw [← map_part?_object] at h
  exact Option.map_eq_none_iff.1 h

open Script

theorem textPart?_object (fields : List (String × Value)) (name : String) :
    textPart? (.object fields) name = match fields.lookup name with
      | some (.text s) => some s
      | _ => none := by
  rw [← map_part?_object, textPart?]
  cases part? (.object fields) name with
  | none => rfl
  | some v =>
    obtain ⟨v, _⟩ := v
    cases v <;> rfl

/-- An assertion that is written with a literal. -/
theorem spec?_assertEqual (v : Value) :
    spec? (.object [("expected", .object [("lit", v)]), ("p", .text "assert_equal")]) =
      (value? v).map fun v => .assertEqual (.lit v) .standard := by
  generalize hfields : [("expected", Value.object [("lit", v)]), ("p", .text "assert_equal")] = fields
  obtain ⟨_, hkind⟩ := exists_part? fields "p" (by rw [← hfields]; rfl)
  obtain ⟨_, hexpected⟩ := exists_part? fields "expected" (by rw [← hfields]; rfl)
  have hencoder := part?_eq_none fields "encoder" (by rw [← hfields]; rfl)
  obtain ⟨_, hlit⟩ := exists_part? [("lit", v)] "lit" rfl
  rw [spec?]
  simp only [textPart?, hkind, exprPart?, hexpected, encoding?, hencoder, Option.bind_some]
  rw [expr?, hlit]
  dsimp only
  cases value? v <;> rfl

theorem definition?_value (v : Value) : definition? (.object [("value", v)]) = (value? v).map .value := by
  obtain ⟨_, hvalue⟩ := exists_part? [("value", v)] "value" rfl
  have hregistered : textPart? (.object [("value", v)]) "registered" = none := textPart?_object _ _
  rw [definition?, part?_eq_none _ "program" rfl, hregistered, valuePart?, hvalue]
  rfl

theorem definition?_program (p : Value) : definition? (.object [("program", p)]) = (spec? p).map .program := by
  obtain ⟨_, hprogram⟩ := exists_part? [("program", p)] "program" rfl
  rw [definition?, hprogram]

/-- A module that defines some attributes and raises nothing. -/
theorem source?_attrs (fields : List (String × Value)) :
    source? (.object [("attrs", .object fields)]) =
      fields.mapM fun f => (definition? f.2).map (.define f.1) := by
  obtain ⟨_, hattrs⟩ := exists_part? [("attrs", .object fields)] "attrs" rfl
  have hdefinitions : definitions? (.object fields) = fields.mapM fun f => (definition? f.2).map (.define f.1) := by
    rw [Value.object_eq_dict, definitions?, List.mapM_map]
    rfl
  have hraise : textPart? (.object [("attrs", .object fields)]) "raise" = none := textPart?_object _ _
  rw [source?, part?_eq_none _ "lines" rfl, hattrs]
  simp [hdefinitions, source?.raised, hraise]

/-- A module that is written line by line. -/
theorem source?_lines (lines : List Value) :
    source? (.object [("lines", .list lines)]) = lines.mapM line? := by
  obtain ⟨_, hlines⟩ := exists_part? [("lines", .list lines)] "lines" rfl
  rw [source?, hlines]
  dsimp only [parts?, Option.bind_some]
  rw [List.mapM_map]
  exact (List.mapM_subtype fun _ _ => rfl).trans (congrArg _ List.unattach_attach)

theorem line?_register (name : String) : line? (.object [("register", .text name)]) = some (.register name) := by
  simp only [line?, textPart?_object]
  rfl

theorem line?_raise (text : String) : line? (.object [("raise", .text text)]) = some (.raise text) := by
  simp only [line?, textPart?_object]
  rfl

end Notation

/-- The bytes of a text in UTF-8. -/
def utf8Bytes (s : String) : List UInt8 := s.toUTF8.data.toList

theorem fromUTF8?_utf8Bytes (s : String) : String.fromUTF8? ⟨(utf8Bytes s).toArray⟩ = some s := by
  have hbytes : (⟨(utf8Bytes s).toArray⟩ : ByteArray) = s.toUTF8 := by rw [utf8Bytes, Array.toArray_toList]
  rw [hbytes]
  exact dif_pos s.isValidUTF8

/-- The bytes of a text hold the document that the text holds. -/
theorem Json.ofBytes?_utf8Bytes (s : String) : ofBytes? (utf8Bytes s) = ofText? s := by
  rw [ofBytes?, fromUTF8?_utf8Bytes, Option.bind_some]

section Loading
variable {tree : FileTree}

/-- The source of a module that a file holds as JSON text. -/
theorem findSource_of_text {p : Path} {text : String} {written : Value} {source : Script.Source}
    (hfile : tree.entry? p = some (.file (utf8Bytes text))) (hsuffix : p.name.endsWith ".py")
    (hread : Json.ofText? text = some written) (hwritten : Notation.source? written = some source) :
    findSource tree p = .ok source := by
  rw [findSource, hfile]
  simp only [hsuffix, if_true, Notation.sourceOfBytes?, Json.ofBytes?_utf8Bytes, hread, Option.bind_some, hwritten]

theorem resolveReference_of_split {reference path name : String}
    (hsplit : splitReference reference = some (path, name)) (usable : (Path.ofText path).isUsable) :
    resolveReference tree reference = .ok (.resolve tree.home (.ofText path), name) := by
  rw [resolveReference, hsplit]
  exact if_pos usable

/-- A program and a host value that one file defines are loaded together: the file is executed for the first of
them, and found again for the second. -/
theorem loadBoth_eq {first second : String} (path n k : String) {source : Script.Source}
    {attributes : List (String × Attribute)} {names : Registry} {program : Program} {host : Attribute}
    (hfirst : splitReference first = some (path, n)) (hsecond : splitReference second = some (path, k))
    (usable : (Path.ofText path).isUsable)
    (hsource : findSource tree (.resolve tree.home (.ofText path)) = .ok source)
    (hexecute : source.execute [moduleName (.resolve tree.home (.ofText path)) 1] = (.ok attributes, names))
    (hprogram : attributes.lookup n = some (.program program)) (hhost : attributes.lookup k = some host) :
    ((Command.loadBoth tree first second).run .start).1 = .ok (program, host.toValue) := by
  rw [run_loadBoth tree .start (resolveReference_of_split hfirst usable) (resolveReference_of_split hsecond usable)]
  have hcourse : LoadState.start.course tree (.resolve tree.home (.ofText path)) =
      .completed ⟨moduleName (.resolve tree.home (.ofText path)) 1, attributes⟩ names := by
    have hregistered : LoadState.start.registered.add (moduleName (.resolve tree.home (.ofText path)) 1) =
        [moduleName (.resolve tree.home (.ofText path)) 1] := rfl
    rw [LoadState.course, hsource]
    dsimp only [LoadState.start] at hregistered ⊢
    rw [hregistered, hexecute]
    rfl
  rw [hcourse]
  simp only [Course.module, Except.bind, Module.programAndHost, Module.attribute, hprogram, hhost]
  rfl

end Loading

end Lockstep
