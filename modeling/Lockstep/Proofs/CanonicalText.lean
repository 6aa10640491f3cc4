import Mathlib.Data.List.Nodup
import Mathlib.Data.String.Basic
import Lockstep.Proofs.WritableDocuments

/-! The canonical text of plain documents. Every plain document whose integers can be written has one, in which the
fields of an object stand in the order of their names, so documents that differ only in the order of entries have the
same. Among these documents there is one whose entries are in order already. -/

namespace Lockstep

namespace Value

/-- Whether the first field may stand before the second, by the code points of their names. -/
def inNameOrder {α : Type} (f g : String × α) : Bool := decide (f.1 ≤ g.1)

section Fields
variable {α : Type} {fs gs : List (String × α)}

private theorem inNameOrder_trans (f g h : String × α) (hfg : inNameOrder f g) (hgh : inNameOrder g h) :
    inNameOrder f h :=
  decide_eq_true (le_trans (of_decide_eq_true hfg) (of_decide_eq_true hgh))

private theorem inNameOrder_total (f g : String × α) : inNameOrder f g || inNameOrder g f := by
  simpa [inNameOrder] using le_total f.1 g.1

/-- Entries with text keys are put in the order of their names. -/
theorem orderEntries_fields (fs : List (String × α)) :
    orderEntries (fs.map fun f => (.text f.1, f.2)) =
      (fs.mergeSort inNameOrder).map fun f => (.text f.1, f.2) := by
  have hordered : (fs.map fun f => (Value.text f.1, f.2)).all fun e => e.1.isOrdered := by
    rw [List.all_map]
    exact List.all_eq_true.2 fun f _ => rfl
  rw [orderEntries, if_pos hordered, List.map_mergeSort]
  intro f _ g _
  change decide (f.1 ≤ g.1) = !decide (g.1 < f.1)
  rw [← decide_not]
  exact decide_eq_decide.2 not_lt.symm

private theorem sortable_fields (fs : List (String × α)) :
    sortable ((fs.map fun f => (Value.text f.1, f.2)).map (·.1)) := by
  have htexts : ((fs.map fun f => (Value.text f.1, f.2)).map (·.1)).all isText := by
    rw [List.map_map, List.all_map]
    exact List.all_eq_true.2 fun f _ => rfl
  rw [sortable, htexts, Bool.or_true, Bool.true_or]

private theorem pairwise_mergeSort_fields (fs : List (String × α)) :
    (fs.mergeSort inNameOrder).Pairwise fun f g => f.1 ≤ g.1 :=
  (List.pairwise_mergeSort inNameOrder_trans inNameOrder_total fs).imp of_decide_eq_true

private theorem eq_of_mem_of_names (distinct : (fs.map (·.1)).Nodup) {f g : String × α} (hf : f ∈ fs) (hg : g ∈ fs)
    (h : f.1 = g.1) : f = g := by
  have hf' := (lookup_eq_some_iff_mem distinct).2 hf
  have hg' := (lookup_eq_some_iff_mem distinct).2 hg
  exact Prod.ext h (Option.some.inj (hf'.symm.trans (h ▸ hg')))

/-- Fields with distinct names have one order only. -/
theorem mergeSort_eq_of_perm (distinct : (fs.map (·.1)).Nodup) (h : fs.Perm gs) :
    fs.mergeSort inNameOrder = gs.mergeSort inNameOrder := by
  refine List.Perm.eq_of_pairwise ?_ (pairwise_mergeSort_fields fs) (pairwise_mergeSort_fields gs)
    ((List.mergeSort_perm fs _).trans (h.trans (List.mergeSort_perm gs _).symm))
  intro f g hf hg hfg hgf
  have hf' : f ∈ fs := (List.mergeSort_perm fs _).mem_iff.1 hf
  have hg' : g ∈ fs := h.mem_iff.2 ((List.mergeSort_perm gs _).mem_iff.1 hg)
  exact eq_of_mem_of_names distinct hf' hg' (le_antisymm hfg hgf)

/-- What is made of the values does not matter for the order. -/
theorem mergeSort_map {β : Type} (g : α → β) (fs : List (String × α)) :
    (fs.map fun f => (f.1, g f.2)).mergeSort inNameOrder =
      (fs.mergeSort inNameOrder).map fun f => (f.1, g f.2) := by
  rw [List.map_mergeSort]
  exact fun _ _ _ _ => rfl

theorem mergeSort_eq_self_of_pairwise (h : (fs.map (·.1)).Pairwise (· < ·)) :
    fs.mergeSort inNameOrder = fs :=
  List.mergeSort_of_pairwise ((List.pairwise_map.1 h).imp fun hlt => decide_eq_true (le_of_lt hlt))

end Fields

/-- A field of an object as it is written. -/
def fieldText (f : String × String) : String := Json.quote f.1 ++ ":" ++ f.2

mutual

/-- The canonical text of plain data, in which integers may be of any length. -/
def canonicalText : Value → String
  | .null => "null"
  | .bool b => if b then "true" else "false"
  | .int n => toString n
  | .float x => NumberLayout.document.text x
  | .text s => Json.quote s
  | .sequence _ items => "[" ++ ",".intercalate (itemTexts items) ++ "]"
  | .dict entries =>
    "\x7b" ++ ",".intercalate (((entryTexts entries).mergeSort inNameOrder).map fieldText) ++ "\x7d"
  | _ => ""

def itemTexts : List Value → List String
  | [] => []
  | x :: xs => canonicalText x :: itemTexts xs

/-- The texts of the values of entries, under the names that are their keys. -/
def entryTexts : List (Value × Value) → List (String × String)
  | [] => []
  | (.text name, v) :: rest => (name, canonicalText v) :: entryTexts rest
  | _ :: rest => entryTexts rest

end

/-- The names of fields, each with the text of its value, in the order in which they are written. -/
def fieldTexts (fields : List (String × Value)) : List (String × String) :=
  (fields.map fun f => (f.1, f.2.canonicalText)).mergeSort inNameOrder

theorem canonicalText_list (items : List Value) :
    (list items).canonicalText = "[" ++ ",".intercalate (items.map canonicalText) ++ "]" := by
  have htexts : itemTexts items = items.map canonicalText := by
    induction items with
    | nil => rw [itemTexts]; rfl
    | cons x xs ih => rw [itemTexts, ih]; rfl
  rw [canonicalText, htexts]

theorem canonicalText_object (fields : List (String × Value)) :
    (object fields).canonicalText = "\x7b" ++ ",".intercalate ((fieldTexts fields).map fieldText) ++ "\x7d" := by
  have htexts : entryTexts (fields.map fun f => (.text f.1, f.2)) =
      fields.map fun f => (f.1, f.2.canonicalText) := by
    induction fields with
    | nil => rw [List.map_nil, entryTexts]; rfl
    | cons f fields ih => rw [List.map_cons, entryTexts, ih]; rfl
  rw [object_eq_dict, canonicalText, htexts, fieldTexts]

section Rendering

private theorem renderItems_eq_mapM (items : List Value) : renderItems items = items.mapM render := by
  induction items with
  | nil => rw [renderItems]; rfl
  | cons v items ih => rw [renderItems, ih, List.mapM_cons]

theorem render_list (items : List Value) :
    (list items).render = (items.mapM render).map fun parts => "[" ++ ",".intercalate parts ++ "]" := by
  rw [render, renderItems_eq_mapM]
  · nofun
  · nofun

/-- A field as it is written, if its value has a text. -/
def renderField (f : String × Value) : Except Fault String := f.2.render.map fun text => fieldText (f.1, text)

private theorem renderValues_fields (fields : List (String × Value)) :
    renderValues (fields.map fun f => (.text f.1, f.2)) =
      (fields.map fun f => (f.1, f.2.render)).map fun r => (.text r.1, r.2) := by
  induction fields with
  | nil => rw [List.map_nil, renderValues]; rfl
  | cons f fields ih => rw [List.map_cons, renderValues, ih]; rfl

private theorem mapM_renderEntry (fields : List (String × Value)) :
    ((fields.map fun f => (f.1, f.2.render)).map fun r => (text r.1, r.2)).mapM renderEntry =
      fields.mapM renderField := by
  rw [List.mapM_map, List.mapM_map]
  congr 1

/-- An object is rendered field by field, in the order of names. -/
theorem render_object (fields : List (String × Value)) :
    (object fields).render = ((fields.mergeSort inNameOrder).mapM renderField).map fun parts =>
      "\x7b" ++ ",".intercalate parts ++ "\x7d" := by
  rw [object_eq_dict, render, renderValues_fields, renderObject, sortable_fields, orderEntries_fields,
    mergeSort_map render, mapM_renderEntry]
  cases (fields.mergeSort inNameOrder).mapM renderField <;> rfl

section Partial
variable {α β : Type} {f : α → Except Fault β} {xs : List α}

private theorem mapM_eq_map {g : α → β} (h : ∀ x ∈ xs, f x = .ok (g x)) : xs.mapM f = .ok (xs.map g) :=
  mapM_eq_ok_iff.2 (List.forall₂_map_right_iff.2 (List.forall₂_same.2 h))

/-- One fault is all that can happen, and it happens. -/
theorem mapM_eq_fault {fault : Fault} (h : ∀ x ∈ xs, f x = .error fault ∨ ∃ y, f x = .ok y) {x : α} (hx : x ∈ xs)
    (hfault : f x = .error fault) : xs.mapM f = .error fault := by
  induction xs with
  | nil => cases hx
  | cons z zs ih =>
    obtain ⟨hz, hzs⟩ := List.forall_mem_cons.1 h
    rw [List.mapM_cons]
    rcases hz with hz | ⟨y, hy⟩
    · rw [hz]
      rfl
    · have hmem : x ∈ zs := by
        rcases List.mem_cons.1 hx with rfl | hmem
        · cases hy.symm.trans hfault
        · exact hmem
      rw [hy, ih hzs hmem]
      rfl

end Partial

/-- A value is rendered as its canonical text if it can be written, and else raises the fault of a long integer. -/
def Renders (v : Value) : Prop :=
  (v.Writable ∧ v.render = .ok v.canonicalText) ∨ (¬ v.Writable ∧ v.render = .error .digitLimit)

theorem IsScalar.renders {v : Value} (h : v.IsScalar) : v.Renders := by
  cases h with
  | int n =>
    rw [Renders, writable_int_iff, render, canonicalText]
    by_cases hn : isWritable n
    · exact .inl ⟨hn, writeInt_eq_ok hn⟩
    · exact .inr ⟨hn, writeInt_eq_error hn⟩
  | null => exact .inl ⟨IsScalar.null.writable nofun, by rw [render, canonicalText]⟩
  | bool b => exact .inl ⟨(IsScalar.bool b).writable nofun, by rw [render, canonicalText]⟩
  | float x => exact .inl ⟨(IsScalar.float x).writable nofun, by rw [render, canonicalText]⟩
  | text s => exact .inl ⟨(IsScalar.text s).writable nofun, by rw [render, canonicalText]⟩

theorem Renders.of_writable {v : Value} (h : v.Renders) (hv : v.Writable) : v.render = .ok v.canonicalText :=
  h.elim (·.2) fun hnot => absurd hv hnot.1

theorem Renders.of_not_writable {v : Value} (h : v.Renders) (hv : ¬ v.Writable) : v.render = .error .digitLimit :=
  h.elim (fun hok => absurd hok.1 hv) (·.2)

private theorem renders_list {items : List Value} (h : ∀ v ∈ items, v.Renders) : (list items).Renders := by
  rw [Renders, writable_list_iff, render_list, canonicalText_list]
  by_cases hall : ∀ v ∈ items, v.Writable
  · rw [mapM_eq_map fun v hv => (h v hv).of_writable (hall v hv)]
    exact .inl ⟨hall, rfl⟩
  · obtain ⟨v, hv, hlong⟩ := not_forall₂.1 hall
    have hany : ∀ v ∈ items, v.render = .error .digitLimit ∨ ∃ text, v.render = .ok text :=
      fun v hv => (h v hv).symm.imp (·.2) fun hok => ⟨_, hok.2⟩
    rw [mapM_eq_fault hany hv ((h v hv).of_not_writable hlong)]
    exact .inr ⟨hall, rfl⟩

private theorem renders_object {fields : List (String × Value)} (h : ∀ f ∈ fields, f.2.Renders) :
    (object fields).Renders := by
  have hmem {f : String × Value} : f ∈ fields.mergeSort inNameOrder ↔ f ∈ fields := (List.mergeSort_perm _ _).mem_iff
  have hok {f : String × Value} (hf : f ∈ fields) (hw : f.2.Writable) :
      renderField f = .ok (fieldText (f.1, f.2.canonicalText)) := by
    rw [renderField, (h f hf).of_writable hw]
    rfl
  have hlong {f : String × Value} (hf : f ∈ fields) (hw : ¬ f.2.Writable) : renderField f = .error .digitLimit := by
    rw [renderField, (h f hf).of_not_writable hw]
    rfl
  rw [Renders, writable_object_iff, render_object, canonicalText_object]
  by_cases hall : ∀ f ∈ fields, f.2.Writable
  · have htexts : (fieldTexts fields).map fieldText =
        (fields.mergeSort inNameOrder).map fun f => fieldText (f.1, f.2.canonicalText) := by
      rw [fieldTexts, mergeSort_map canonicalText, List.map_map]
      rfl
    rw [mapM_eq_map fun f hf => hok (hmem.1 hf) (hall f (hmem.1 hf)), htexts]
    exact .inl ⟨hall, rfl⟩
  · obtain ⟨f, hf, hwrite⟩ := not_forall₂.1 hall
    have hany : ∀ f ∈ fields.mergeSort inNameOrder,
        renderField f = .error .digitLimit ∨ ∃ text, renderField f = .ok text := by
      intro f hf
      by_cases hw : f.2.Writable
      · exact .inr ⟨_, hok (hmem.1 hf) hw⟩
      · exact .inl (hlong (hmem.1 hf) hw)
    rw [mapM_eq_fault hany (hmem.2 hf) (hlong hf hwrite)]
    exact .inr ⟨hall, rfl⟩

end Rendering

theorem Plain.renders {v : Value} (h : v.Plain) : v.Renders := by
  induction h with
  | null => exact IsScalar.null.renders
  | bool b => exact (IsScalar.bool b).renders
  | int n => exact (IsScalar.int n).renders
  | float x => exact (IsScalar.float x).renders
  | text s => exact (IsScalar.text s).renders
  | list _ ih => exact renders_list ih
  | object _ _ ih => exact renders_object ih

section Rendered
variable {v : Value} (hv : v.Plain)
include hv

/-- What can be written is rendered as its canonical text. -/
theorem Plain.render_eq (h : v.Writable) : v.render = .ok v.canonicalText := hv.renders.of_writable h

/-- An integer that is too long is all that keeps plain data from being rendered. -/
theorem Plain.render_eq_digitLimit (h : ¬ v.Writable) : v.render = .error .digitLimit := hv.renders.of_not_writable h

theorem Plain.render_eq_ok_iff {s : String} : v.render = .ok s ↔ v.Writable ∧ s = v.canonicalText := by
  by_cases h : v.Writable
  · rw [hv.render_eq h]
    simp [h, eq_comm]
  · rw [hv.render_eq_digitLimit h]
    simp [h]

theorem Plain.render_eq_error_iff {fault : Fault} : v.render = .error fault ↔ ¬ v.Writable ∧ fault = .digitLimit := by
  by_cases h : v.Writable
  · rw [hv.render_eq h]
    simp [h]
  · rw [hv.render_eq_digitLimit h]
    simp [h, eq_comm]

theorem Plain.exists_render_iff : (∃ s, v.render = .ok s) ↔ v.Writable := by
  simp [hv.render_eq_ok_iff]

end Rendered

/-- What is written of an object does not depend on the order of its fields. -/
theorem fieldTexts_eq_of_names {fs gs : List (String × Value)} (distinct : (fs.map (·.1)).Nodup)
    (names : (fs.map (·.1)).Perm (gs.map (·.1)))
    (h : ∀ name v w, (name, v) ∈ fs → (name, w) ∈ gs → v.canonicalText = w.canonicalText) :
    fieldTexts fs = fieldTexts gs := by
  have hnames (ts : List (String × Value)) :
      (ts.map fun f => (f.1, f.2.canonicalText)).map (·.1) = ts.map (·.1) := List.map_map
  have hfs : ((fs.map fun f => (f.1, f.2.canonicalText)).map (·.1)).Nodup := (hnames fs).symm ▸ distinct
  have hgs : ((gs.map fun f => (f.1, f.2.canonicalText)).map (·.1)).Nodup :=
    (hnames gs).symm ▸ names.nodup_iff.1 distinct
  refine mergeSort_eq_of_perm hfs
    ((List.perm_ext_iff_of_nodup (List.Nodup.of_map _ hfs) (List.Nodup.of_map _ hgs)).2 ?_)
  rintro ⟨name, t⟩
  simp only [List.mem_map, Prod.mk.injEq]
  constructor
  · rintro ⟨f, hf, rfl, rfl⟩
    obtain ⟨w, hw⟩ := exists_mem_of_names names hf
    exact ⟨_, hw, rfl, (h _ _ _ hf hw).symm⟩
  · rintro ⟨g, hg, rfl, rfl⟩
    obtain ⟨v, hv⟩ := exists_mem_of_names names.symm hg
    exact ⟨_, hv, rfl, h _ _ _ hv hg⟩

theorem Reordered.of_perm {fs gs : List (String × Value)} (distinct : (fs.map (·.1)).Nodup) (h : fs.Perm gs) :
    Reordered (.object fs) (.object gs) := by
  refine .object (h.map _) fun name v w hv hw => ?_
  cases eq_of_mem_of_names distinct hv (h.mem_iff.2 hw) rfl
  exact .refl v

/-- Documents that differ only in the order of entries have the same text. -/
theorem Reordered.canonicalText_eq {v w : Value} (h : Reordered v w) (hv : v.Plain) :
    v.canonicalText = w.canonicalText := by
  induction h with
  | refl => rfl
  | @list xs ys length_eq h ih =>
    cases hv with
    | list hxs =>
      have htexts : xs.map canonicalText = ys.map canonicalText := by
        rw [← List.forall₂_eq_eq_eq, List.forall₂_map_left_iff, List.forall₂_map_right_iff]
        exact forall₂_of_zip length_eq fun x y hxy => ih x y hxy (hxs x (List.of_mem_zip hxy).1)
      rw [canonicalText_list, canonicalText_list, htexts]
  | @object fs gs names h ih =>
    obtain ⟨distinct, hfs⟩ := plain_object_iff.1 hv
    rw [canonicalText_object, canonicalText_object, fieldTexts_eq_of_names distinct names]
    exact fun name v w hv hw => ih name v w hv hw (hfs _ hv)

/-- Whether there is a text, and which one, does not depend on the order of entries. -/
theorem Reordered.render_eq {v w : Value} (h : Reordered v w) (hv : v.Plain) : v.render = w.render := by
  by_cases hwritable : v.Writable
  · rw [hv.render_eq hwritable, (h.plain hv).render_eq (h.writable hwritable), h.canonicalText_eq hv]
  · rw [hv.render_eq_digitLimit hwritable, (h.plain hv).render_eq_digitLimit (mt h.symm.writable hwritable)]

/-- Plain data in which the fields of every object stand in the order of their names. -/
inductive Ordered : Value → Prop where
  | null : Ordered .null
  | bool (b : Bool) : Ordered (.bool b)
  | int (n : Int) : Ordered (.int n)
  | float (x : Binary64) : Ordered (.float x)
  | text (s : String) : Ordered (.text s)
  | list {items : List Value} (h : ∀ v ∈ items, Ordered v) : Ordered (.list items)
  | object {fields : List (String × Value)} (sorted : (fields.map (·.1)).Pairwise (· < ·))
      (h : ∀ f ∈ fields, Ordered f.2) : Ordered (.object fields)

theorem Ordered.plain {v : Value} (h : v.Ordered) : v.Plain := by
  induction h with
  | null => exact .null
  | bool b => exact .bool b
  | int n => exact .int n
  | float x => exact .float x
  | text s => exact .text s
  | list _ ih => exact .list ih
  | object sorted _ ih => exact .object (sorted.imp ne_of_lt) ih

private theorem exists_forall₂ {α β : Type} {R : α → β → Prop} {xs : List α} (h : ∀ x ∈ xs, ∃ y, R x y) :
    ∃ ys, List.Forall₂ R xs ys := by
  induction xs with
  | nil => exact ⟨[], .nil⟩
  | cons x xs ih =>
    obtain ⟨⟨y, hy⟩, hxs⟩ := List.forall_mem_cons.1 h
    obtain ⟨ys, hys⟩ := ih hxs
    exact ⟨y :: ys, .cons hy hys⟩

private theorem names_eq_of_forall₂ {α β : Type} {R : String × α → String × β → Prop} {fs : List (String × α)}
    {gs : List (String × β)} (h : List.Forall₂ R fs gs) (hR : ∀ f g, R f g → f.1 = g.1) :
    fs.map (·.1) = gs.map (·.1) := by
  induction h with
  | nil => rfl
  | cons hfg _ ih => rw [List.map_cons, List.map_cons, hR _ _ hfg, ih]

private theorem pairwise_lt_mergeSort {α : Type} {fs : List (String × α)} (distinct : (fs.map (·.1)).Nodup) :
    ((fs.mergeSort inNameOrder).map (·.1)).Pairwise (· < ·) := by
  have hne : ((fs.mergeSort inNameOrder).map (·.1)).Nodup :=
    ((List.mergeSort_perm fs inNameOrder).map _).nodup_iff.2 distinct
  have hle := List.pairwise_map.2 (pairwise_mergeSort_fields fs)
  exact hle.imp₂ (fun _ _ => lt_of_le_of_ne) hne

/-- The entries of plain data can be put in order. -/
theorem Plain.exists_ordered {v : Value} (h : v.Plain) : ∃ w : Value, w.Ordered ∧ Reordered v w := by
  induction h with
  | null => exact ⟨_, .null, .refl _⟩
  | bool b => exact ⟨_, .bool b, .refl _⟩
  | int n => exact ⟨_, .int n, .refl _⟩
  | float x => exact ⟨_, .float x, .refl _⟩
  | text s => exact ⟨_, .text s, .refl _⟩
  | list _ ih =>
    obtain ⟨ys, hys⟩ := exists_forall₂ ih
    refine ⟨Value.list ys, .list fun y hy => ?_, .list hys.length_eq fun x y hxy => (List.forall₂_zip hys hxy).2⟩
    obtain ⟨_, _, hy, _⟩ := exists_mem_of_forall₂ hys y hy
    exact hy
  | @object fs distinct _ ih =>
    have hex : ∀ f ∈ fs, ∃ g : String × Value, f.1 = g.1 ∧ g.2.Ordered ∧ Reordered f.2 g.2 := fun f hf =>
      let ⟨w, hw⟩ := ih f hf
      ⟨(f.1, w), rfl, hw⟩
    -- The values of the fields are put in order first, and then the fields by their names.
    obtain ⟨gs, hgs⟩ := exists_forall₂ hex
    have hnames := names_eq_of_forall₂ hgs fun _ _ h => h.1
    have hperm := List.mergeSort_perm gs inNameOrder
    refine ⟨Value.object (gs.mergeSort inNameOrder), .object ?_ ?_, .object ?_ ?_⟩
    · exact pairwise_lt_mergeSort (hnames ▸ distinct)
    · intro g hg
      obtain ⟨_, _, _, hg, _⟩ := exists_mem_of_forall₂ hgs g (hperm.mem_iff.1 hg)
      exact hg
    · rw [hnames]
      exact (hperm.map _).symm
    · intro name v w hv hw
      obtain ⟨f, hf, hname, _, hfw⟩ := exists_mem_of_forall₂ hgs _ (hperm.mem_iff.1 hw)
      cases eq_of_mem_of_names distinct hv hf hname.symm
      exact hfw

end Value

end Lockstep
