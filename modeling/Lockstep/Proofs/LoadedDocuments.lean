import Lockstep.Proofs.DocumentFaults
import Lockstep.Proofs.DocumentReading
import Lockstep.Proofs.YamlPayloads

/-! What comes out of loading is plain data. For JSON the reader never holds anything else; for YAML the payload of the
text is checked, and what passes is loaded as it is. -/

namespace Lockstep

namespace Json

private theorem foldlM_keeps {σ α : Type} {f : σ → α → Option σ} {I : σ → Prop} {Q : α → Prop}
    (step : ∀ s x s', I s → Q x → f s x = some s' → I s') {xs : List α} (hxs : ∀ x ∈ xs, Q x) {s s' : σ} (hs : I s)
    (h : xs.foldlM f s = some s') : I s' := by
  induction xs generalizing s with
  | nil => cases h; exact hs
  | cons x xs ih =>
    obtain ⟨hx, hxs⟩ := List.forall_mem_cons.1 hxs
    rw [List.foldlM_cons] at h
    obtain ⟨t, ht, h⟩ := Option.bind_eq_some_iff.1 h
    exact ih hxs (step s x t hs hx ht) h

/-- What a token holds is plain. -/
def Token.Plain (t : Token) : Prop := ∀ v, t = .scalar v → v.IsScalar

private theorem Token.plain_scalar {v : Value} (h : v.IsScalar) : (Token.scalar v).Plain := by
  rintro _ ⟨⟩
  exact h

private theorem isScalar_of_ofWord? {cs : List Char} {v : Value} (h : ofWord? cs = some v) : v.IsScalar := by
  rw [ofWord?] at h
  split at h
  · rw [ofNumeral?] at h
    split at h
    · cases h
    · split at h
      · cases h; exact .int _
      · cases h; exact .float _
  · dsimp only at h
    split_ifs at h <;> cases h
    · exact .null
    · exact .bool true
    · exact .bool false
    · exact .float .nan
    · exact .float (.infinite false)
    · exact .float (.infinite true)

namespace Lexer

private theorem plain_of_mark? {c : Char} {t : Token} (h : mark? c = some t) : t.Plain := by
  rintro v rfl
  unfold mark? at h
  split_ifs at h <;> cases h

private theorem plain_begin {tokens : List Token} (h : ∀ t ∈ tokens, t.Plain) (c : Char) :
    ∀ t ∈ (begin tokens c).tokens, t.Plain := by
  rw [begin]
  split
  · rename_i t ht
    exact List.forall_mem_cons.2 ⟨plain_of_mark? ht, h⟩
  · split_ifs <;> exact h

private theorem plain_next {s s' : Lexer} {c : Char} (h : ∀ t ∈ s.tokens, t.Plain) (hnext : s.next c = some s') :
    ∀ t ∈ s'.tokens, t.Plain := by
  rw [next.eq_def] at hnext
  split at hnext
  · cases hnext
    exact plain_begin h c
  · split at hnext
    · obtain ⟨v, hv, rfl⟩ := Option.map_eq_some_iff.1 hnext
      exact plain_begin (List.forall_mem_cons.2 ⟨Token.plain_scalar (isScalar_of_ofWord? hv), h⟩) c
    · cases hnext; exact h
  · split_ifs at hnext
    · obtain ⟨cs, -, rfl⟩ := Option.map_eq_some_iff.1 hnext
      exact List.forall_mem_cons.2 ⟨Token.plain_scalar (.text _), h⟩
    · cases hnext; exact h
    · cases hnext; exact h
  · split_ifs at hnext
    · cases hnext; exact h
    · obtain ⟨d, -, rfl⟩ := Option.map_eq_some_iff.1 hnext
      exact h
  · obtain ⟨d, -, rfl⟩ := Option.map_eq_some_iff.1 hnext
    split_ifs <;> exact h

end Lexer

private theorem plain_of_tokens? {cs : List Char} {ts : List Token} (h : tokens? cs = some ts) : ∀ t ∈ ts, t.Plain := by
  rw [tokens?] at h
  obtain ⟨s, hs, hfinish⟩ := Option.bind_eq_some_iff.1 h
  have hplain : ∀ t ∈ s.tokens, t.Plain :=
    foldlM_keeps (fun _ c _ hs _ => Lexer.plain_next hs) (fun _ _ => trivial) (List.forall_mem_nil _) hs
  rw [Lexer.finish] at hfinish
  split at hfinish
  · cases hfinish
    exact fun t ht => hplain t (List.mem_reverse.1 ht)
  · obtain ⟨v, hv, rfl⟩ := Option.map_eq_some_iff.1 hfinish
    intro t ht
    rcases List.mem_cons.1 (List.mem_reverse.1 ht) with rfl | ht
    · exact Token.plain_scalar (isScalar_of_ofWord? hv)
    · exact hplain t ht
  · cases hfinish

/-- Entries read so far, with plain data under the names of fields. -/
def PlainEntries (entries : List (Value × Value)) : Prop :=
  ∃ fs : List (String × Value), entries = entriesOf fs ∧ ∀ f ∈ fs, f.2.Plain

private theorem plainEntries_nil : PlainEntries [] := ⟨[], rfl, List.forall_mem_nil _⟩

theorem PlainEntries.cons {entries : List (Value × Value)} {v : Value} (h : PlainEntries entries) (key : String)
    (hv : v.Plain) : PlainEntries ((.text key, v) :: entries) := by
  obtain ⟨fs, rfl, hfs⟩ := h
  refine ⟨fs ++ [(key, v)], (entriesOf_append fs (key, v)).symm, List.forall_mem_append.2 ⟨hfs, ?_⟩⟩
  simpa using hv

/-- The object of these entries has distinct names. -/
theorem PlainEntries.plain_objectOf {entries : List (Value × Value)} (h : PlainEntries entries) :
    (Reader.objectOf entries).Plain := by
  obtain ⟨fs, rfl, hfs⟩ := h
  obtain ⟨gs, hgs, distinct, hsub⟩ := Value.exists_dictOf_subset fs
  rw [objectOf_entriesOf, hgs]
  exact .object distinct fun g hg => hfs g (hsub hg)

/-- What has been read of a container that is still open is plain. -/
inductive Opened.Plain : Opened → Prop where
  | array {items : List Value} (h : ∀ v ∈ items, v.Plain) : Plain (.array items)
  | object {entries : List (Value × Value)} (h : PlainEntries entries) (key : String) : Plain (.object entries key)

inductive Awaited.Plain : Awaited → Prop where
  | value : Plain .value
  | itemOrEnd : Plain .itemOrEnd
  | keyOrEnd {entries : List (Value × Value)} (h : PlainEntries entries) : Plain (.keyOrEnd entries)
  | key {entries : List (Value × Value)} (h : PlainEntries entries) : Plain (.key entries)
  | colon {entries : List (Value × Value)} (h : PlainEntries entries) (key : String) : Plain (.colon entries key)
  | rest {v : Value} (h : v.Plain) : Plain (.rest v)

/-- A reader holds nothing but plain data. -/
structure Reader.Plain (s : Reader) : Prop where
  awaited : s.awaited.Plain
  opened : ∀ o ∈ s.opened, o.Plain

namespace Reader
variable {opened opened' : List Opened} {o : Opened} {t : Token} {s s' : Reader}

private theorem plain_enter (hopened : ∀ o ∈ opened, o.Plain) (ho : o.Plain) (h : enter opened o = some opened') :
    ∀ o ∈ opened', o.Plain := by
  rw [enter] at h
  split at h
  · cases h; exact List.forall_mem_cons.2 ⟨ho, hopened⟩
  · cases h

private theorem plain_beginValue (hopened : ∀ o ∈ opened, o.Plain) (ht : t.Plain) (h : beginValue opened t = some s) :
    s.Plain := by
  cases t with
  | scalar v => cases h; exact ⟨.rest (ht v rfl).plain, hopened⟩
  | openArray => cases h; exact ⟨.itemOrEnd, hopened⟩
  | openObject => cases h; exact ⟨.keyOrEnd plainEntries_nil, hopened⟩
  | _ => cases h

private theorem plain_beginKey {entries : List (Value × Value)} (hopened : ∀ o ∈ opened, o.Plain)
    (hentries : PlainEntries entries) (h : beginKey opened entries t = some s) : s.Plain := by
  rw [beginKey.eq_def] at h
  split at h
  · cases h; exact ⟨.colon hentries _, hopened⟩
  · cases h

/-- Every step of the reader goes from plain data to plain data. -/
theorem Plain.next (hs : s.Plain) (ht : t.Plain) (h : s.next t = some s') : s'.Plain := by
  obtain ⟨hawaited, hopened⟩ := hs
  obtain ⟨awaited, opened⟩ := s
  rw [Reader.next.eq_def] at h
  cases hawaited with
  | value => exact plain_beginValue hopened ht h
  | itemOrEnd =>
    dsimp only at h
    split at h
    · cases h; exact ⟨.rest (.list (List.forall_mem_nil _)), hopened⟩
    · obtain ⟨opened', henter, h⟩ := Option.bind_eq_some_iff.1 h
      exact plain_beginValue (plain_enter hopened (.array (List.forall_mem_nil _)) henter) ht h
  | keyOrEnd hentries =>
    dsimp only at h
    split at h
    · cases h; exact ⟨.rest hentries.plain_objectOf, hopened⟩
    · exact plain_beginKey hopened hentries h
  | key hentries => exact plain_beginKey hopened hentries h
  | colon hentries key =>
    dsimp only at h
    split at h
    · obtain ⟨opened', henter, rfl⟩ := Option.map_eq_some_iff.1 h
      exact ⟨.value, plain_enter hopened (.object hentries key) henter⟩
    · cases h
  | @rest v hv =>
    cases opened with
    | nil => cases h
    | cons o opened =>
      obtain ⟨ho, hrest⟩ := List.forall_mem_cons.1 hopened
      cases ho with
      | @array items hitems =>
        have hall : ∀ w ∈ v :: items, w.Plain := List.forall_mem_cons.2 ⟨hv, hitems⟩
        cases t with
        | comma => cases h; exact ⟨.value, List.forall_mem_cons.2 ⟨.array hall, hrest⟩⟩
        | closeArray => cases h; exact ⟨.rest (.list fun w hw => hall w (List.mem_reverse.1 hw)), hrest⟩
        | _ => cases h
      | object hentries key =>
        have hall := hentries.cons key hv
        cases t with
        | comma => cases h; exact ⟨.key hall, hrest⟩
        | closeObject => cases h; exact ⟨.rest hall.plain_objectOf, hrest⟩
        | _ => cases h

end Reader

/-- The document that a text holds is plain. -/
theorem plain_of_ofText? {s : String} {v : Value} (h : ofText? s = some v) : v.Plain := by
  obtain ⟨ts, hts, h⟩ := Option.bind_eq_some_iff.1 h
  obtain ⟨r, hr, h⟩ := Option.bind_eq_some_iff.1 h
  have hplain : r.Plain :=
    foldlM_keeps (fun _ _ _ hs ht => hs.next ht) (plain_of_tokens? hts) ⟨.value, List.forall_mem_nil _⟩ hr
  rw [Reader.finish.eq_def] at h
  split at h
  · rename_i hrest _
    cases h
    have hawaited := hplain.awaited
    rw [hrest] at hawaited
    cases hawaited with
    | rest hv => exact hv
  · cases h

end Json

/-- A file of YAML at a path, with the payload that its text stands for. -/
inductive FileTree.Parses (tree : FileTree) (p : Path) (P : Yaml.Payload) : Prop where
  | intro {data : List UInt8} {s : String} (file : tree.Opens p .yaml data)
      (text : String.fromUTF8? ⟨data.toArray⟩ = some s) (payload : Yaml.payloadOf s = .ok P) : Parses tree p P

section Loading
variable {tree : FileTree} {p : Path} {P : Yaml.Payload} {w : Value}

theorem FileTree.Parses.distinct (h : tree.Parses p P) : P.Distinct := by
  obtain ⟨-, -, hP⟩ := h
  exact Yaml.payloadOf_distinct hP

/-- The payload that a file stands for is loaded if it passes the check, and refused if not. -/
theorem FileTree.Parses.loadDocument_eq (h : tree.Parses p P) :
    loadDocument tree p = match Yaml.plainAt P.objects (Yaml.levelLimit + 1) P.root with
      | some w => .ok w
      | none => .error (.document p.text (.notPlainData (tree.complaint p))) := by
  obtain ⟨hopens, htext, hP⟩ := h
  rw [hopens.loadDocument_eq, readDocument, readYaml, htext]
  dsimp only
  rw [Yaml.ofText_eq, hP, Except.map]
  cases Yaml.plainAt P.objects (Yaml.levelLimit + 1) P.root <;> rfl

theorem FileTree.Parses.loadDocument_eq_ok_iff (h : tree.Parses p P) :
    loadDocument tree p = .ok w ↔ P.Tree P.root w ∧ w.Under (Yaml.levelLimit + 1) := by
  rw [h.loadDocument_eq, ← Yaml.Payload.plainAt_eq_some_iff h.distinct]
  cases Yaml.plainAt P.objects (Yaml.levelLimit + 1) P.root <;> simp

theorem FileTree.Parses.loadDocument_eq_error_iff (h : tree.Parses p P) :
    loadDocument tree p = .error (.document p.text (.notPlainData (tree.complaint p))) ↔
      ¬ ∃ w, P.Tree P.root w ∧ w.Under (Yaml.levelLimit + 1) := by
  simp only [h.loadDocument_eq, ← Yaml.Payload.plainAt_eq_some_iff h.distinct]
  cases Yaml.plainAt P.objects (Yaml.levelLimit + 1) P.root <;> simp

/-- A file of YAML that is loaded has a payload. -/
theorem FileTree.Opens.exists_parses {data : List UInt8} (h : tree.Opens p .yaml data)
    (hw : loadDocument tree p = .ok w) : ∃ P, tree.Parses p P := by
  rw [h.loadDocument_eq, readDocument, readYaml] at hw
  cases htext : String.fromUTF8? ⟨data.toArray⟩ with
  | none => rw [htext] at hw; cases hw
  | some s =>
    cases hP : Yaml.payloadOf s with
    | ok P => exact ⟨P, .intro h htext hP⟩
    | error d =>
      rw [htext] at hw
      simp only [Yaml.ofText_eq, hP, Except.map] at hw
      cases d <;> cases hw

/-- What is loaded is read from a file. -/
theorem exists_opens (hw : loadDocument tree p = .ok w) : ∃ format data, tree.Opens p format data := by
  rw [loadDocument] at hw
  split at hw
  · cases hw
  · rename_i format hformat
    split at hw
    · cases hw
    · rename_i husable
      split at hw
      · rename_i data hopen
        exact ⟨format, data, hformat, by simpa using husable, hopen⟩
      · cases hw

/-- What is loaded is plain data, whatever the file holds. -/
theorem plain_of_loadDocument (hw : loadDocument tree p = .ok w) : w.Plain := by
  obtain ⟨format, data, hopens⟩ := exists_opens hw
  cases format with
  | json =>
    rw [hopens.loadDocument_eq, readDocument, readJson] at hw
    split at hw
    · rename_i v hv
      cases hw
      obtain ⟨s, -, hs⟩ := Option.bind_eq_some_iff.1 hv
      exact Json.plain_of_ofText? hs
    · cases hw
  | yaml =>
    obtain ⟨P, hP⟩ := hopens.exists_parses hw
    exact (hP.loadDocument_eq_ok_iff.1 hw).1.plain hP.distinct

end Loading

/-- Only plain data comes out of loading, and it comes out unchanged. A file of YAML is loaded exactly if its payload
is a tree of plain data that is not too deep, and refused if anything else is found in it at any depth. -/
theorem loaded_data_plain (tree : FileTree) (p : Path) :
    (∀ w, loadDocument tree p = .ok w → w.Plain) ∧
    (∀ data w, tree.Opens p .yaml data → (loadDocument tree p = .ok w ↔
      ∃ P, tree.Parses p P ∧ P.Tree P.root w ∧ w.Under (Yaml.levelLimit + 1))) ∧
    ∀ P, tree.Parses p P →
      (loadDocument tree p = .error (.document p.text (.notPlainData (tree.complaint p))) ↔
        ¬ ∃ w, P.Tree P.root w ∧ w.Under (Yaml.levelLimit + 1)) ∧
      (∀ id, P.Contains id → P.Unplain id →
        loadDocument tree p = .error (.document p.text (.notPlainData (tree.complaint p)))) ∧
      (Fault.document p.text (.notPlainData (tree.complaint p))).message? =
        some ("Document " ++ p.text ++ " is not plain JSON data: " ++ tree.complaint p) := by
  refine ⟨fun w => plain_of_loadDocument, fun data w hopens => ⟨fun hw => ?_, ?_⟩, fun P hP => ⟨?_, ?_, ?_⟩⟩
  · obtain ⟨P, hP⟩ := hopens.exists_parses hw
    exact ⟨P, hP, hP.loadDocument_eq_ok_iff.1 hw⟩
  · rintro ⟨P, hP, htree⟩
    exact hP.loadDocument_eq_ok_iff.2 htree
  · exact hP.loadDocument_eq_error_iff
  · intro id hid hu
    refine hP.loadDocument_eq_error_iff.2 fun ⟨w, htree, _⟩ => ?_
    obtain ⟨e, he⟩ := htree.of_contains hid
    exact he.not_unplain hu
  · rfl

/-- A list that holds itself next to a number is refused, and numbers of two kinds are loaded. -/
theorem loaded_data_plain_numbers :
    let tree : FileTree := { home := ⟨"/", ["home"]⟩, entries := [
      (⟨"/", ["home", "a.yml"]⟩, .file (utf8Bytes "&a [1, *a]")),
      (⟨"/", ["home", "b.yaml"]⟩, .file (utf8Bytes "[1, 1.0]"))] }
    (∃ P, tree.Parses (.ofText "a.yml") P ∧ P.Contains P.root ∧ P.Unplain P.root ∧
      loadDocument tree (.ofText "a.yml") = .error (.document "a.yml" (.notPlainData ""))) ∧
    ∃ w P, loadDocument tree (.ofText "b.yaml") = .ok w ∧ tree.Parses (.ofText "b.yaml") P ∧ P.Tree P.root w ∧
      w.Plain := by
  intro tree
  constructor
  · have hopens : tree.Opens (.ofText "a.yml") .yaml (utf8Bytes "&a [1, *a]") :=
      ⟨by decide +kernel, by decide +kernel, rfl⟩
    have hparts : (Yaml.payloadOf "&a [1, *a]").toOption.map (fun P => (P.root, (P.object? 0).map Yaml.Built.parts)) =
        some (0, some [1, 0]) := by decide +kernel
    cases hP : Yaml.payloadOf "&a [1, *a]" with
    | error d => rw [hP] at hparts; cases hparts
    | ok P =>
      rw [hP] at hparts
      obtain ⟨hroot, hparts⟩ := Prod.mk.inj (Option.some.inj hparts)
      obtain ⟨b, hb, hparts⟩ := Option.map_eq_some_iff.1 hparts
      have hfile : tree.Parses (.ofText "a.yml") P := .intro hopens (fromUTF8?_utf8Bytes _) hP
      have hloop : P.Unplain P.root := by
        rw [hroot]
        exact .loop (.single ⟨b, hb, by rw [hparts]; decide⟩)
      obtain ⟨-, hrefuses, -⟩ := (loaded_data_plain tree (.ofText "a.yml")).2.2 P hfile
      exact ⟨P, hfile, .refl, hloop, hrefuses P.root .refl hloop⟩
  · have hopens : tree.Opens (.ofText "b.yaml") .yaml (utf8Bytes "[1, 1.0]") :=
      ⟨by decide +kernel, by decide +kernel, rfl⟩
    have hok : (loadDocument tree (.ofText "b.yaml")).toOption.isSome := by decide +kernel
    cases hw : loadDocument tree (.ofText "b.yaml") with
    | error fault => rw [hw] at hok; cases hok
    | ok w =>
      obtain ⟨hplain, hloads, -⟩ := loaded_data_plain tree (.ofText "b.yaml")
      obtain ⟨P, hP, htree, -⟩ := (hloads _ w hopens).1 hw
      exact ⟨w, P, rfl, hP, htree, hplain w hw⟩

end Lockstep
