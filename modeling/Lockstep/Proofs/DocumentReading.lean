import Lockstep.Json.Read
import Lockstep.Proofs.CanonicalText
import Lockstep.Proofs.TextTokens
import Lockstep.Proofs.WrittenNumerals

/-! Reading canonical texts. Plain data within the limits of the reader, with finite numbers and the fields of
every object in order, is read back from its canonical text. The reader is followed with the containers around
a value left open, so that a part is read in the same way wherever it stands. -/

namespace Lockstep

/-- Plain data that can be read inside of containers when so many more may be opened: its floating-point numbers
are finite, its integers are not too long, and containers that are not empty are not nested too deeply. -/
inductive Value.Storable : Nat → Value → Prop where
  | null (room : Nat) : Storable room .null
  | bool (room : Nat) (b : Bool) : Storable room (.bool b)
  | int (room : Nat) {n : Int} (h : Binary64.decimalLength n.natAbs ≤ digitLimit) : Storable room (.int n)
  | float (room : Nat) (negative : Bool) (x : Magnitude) : Storable room (.float (.finite negative x))
  | text (room : Nat) (s : String) : Storable room (.text s)
  | emptyList (room : Nat) : Storable room (.list [])
  | emptyObject (room : Nat) : Storable room (.object [])
  | list {room : Nat} {items : List Value} (h : ∀ v ∈ items, Storable room v) : Storable (room + 1) (.list items)
  | object {room : Nat} {fields : List (String × Value)} (h : ∀ f ∈ fields, Storable room f.2) :
      Storable (room + 1) (.object fields)

namespace Value

theorem storable_object_iff {room : Nat} {fields : List (String × Value)} :
    (Value.object fields).Storable room ↔ fields = [] ∨ ∃ r, room = r + 1 ∧ ∀ f ∈ fields, f.2.Storable r := by
  constructor
  · intro h
    generalize hv : Value.object fields = v at h
    cases h with
    | emptyObject => exact .inl (object_injective hv)
    | object h => cases object_injective hv; exact .inr ⟨_, rfl, h⟩
    | _ => cases hv
  · rintro (rfl | ⟨r, rfl, h⟩)
    · exact .emptyObject room
    · exact .object h

theorem storable_list_iff {room : Nat} {items : List Value} :
    (Value.list items).Storable room ↔ items = [] ∨ ∃ r, room = r + 1 ∧ ∀ v ∈ items, v.Storable r := by
  constructor
  · intro h
    cases h with
    | emptyList => exact .inl rfl
    | list h => exact .inr ⟨_, rfl, h⟩
  · rintro (rfl | ⟨r, rfl, h⟩)
    · exact .emptyList room
    · exact .list h

end Value

namespace Json

/-- A text whose tokens are read as a value wherever a value may stand and so many containers may be opened. -/
def Gives (cs : List Char) (room : Nat) (v : Value) : Prop :=
  ∃ ts, Splits cs ts ∧ ∀ opened : List Opened, opened.length + room ≤ depthLimit →
    ts.foldlM Reader.next ⟨.value, opened⟩ = some ⟨.rest v, opened⟩

/-- A text that begins with a mark, and whose tokens lead a reader from one state to another in any containers
inside of which so many may be opened. -/
def Leads (cs : List Char) (room : Nat) (s s' : List Opened → Reader) : Prop :=
  ∃ c t ds us, cs = c :: ds ∧ mark? c = some t ∧ Splits ds us ∧ ∀ opened : List Opened,
    opened.length + room ≤ depthLimit → (t :: us).foldlM Reader.next (s opened) = some (s' opened)

private theorem foldlM_trans {ts us : List Token} {s s' s'' : Reader} (h : ts.foldlM Reader.next s = some s')
    (h' : us.foldlM Reader.next s' = some s'') : (ts ++ us).foldlM Reader.next s = some s'' := by
  rw [List.foldlM_append, h]
  exact h'

private theorem foldlM_step {t : Token} {us : List Token} {s s' s'' : Reader} (h : s.next t = some s')
    (h' : us.foldlM Reader.next s' = some s'') : (t :: us).foldlM Reader.next s = some s'' := by
  rw [List.foldlM_cons, h]
  exact h'

theorem Gives.scalar {cs : List Char} {v : Value} (h : Splits cs [.scalar v]) (room : Nat) : Gives cs room v :=
  ⟨_, h, fun _ _ => rfl⟩

/-- The first item of a list is read as a value inside of the list. -/
theorem foldlM_itemOrEnd {ts : List Token} {v : Value} {opened : List Opened} (hroom : opened.length < depthLimit)
    (h : ts.foldlM Reader.next ⟨.value, .array [] :: opened⟩ = some ⟨.rest v, .array [] :: opened⟩) :
    ts.foldlM Reader.next ⟨.itemOrEnd, opened⟩ = some ⟨.rest v, .array [] :: opened⟩ := by
  cases ts with
  | nil => cases h
  | cons t ts =>
    -- The end of the list is all that is read differently here, and no value begins with it.
    have hnext : Reader.next ⟨.itemOrEnd, opened⟩ t = Reader.next ⟨.value, .array [] :: opened⟩ t := by
      cases t with
      | closeArray => cases h
      | _ => simp only [Reader.next, Reader.enter, if_pos hroom, Option.bind_some]
    rw [List.foldlM_cons, hnext]
    exact h

section Items
variable {room : Nat}

/-- The texts of further items, each after a comma, and the end of the list. -/
def itemsEnd (xs : List Value) : List Char := xs.flatMap (fun x => ',' :: x.canonicalText.toList) ++ [']']

private theorem leads_itemsEnd {xs : List Value} (h : ∀ x ∈ xs, Gives x.canonicalText.toList room x) (v : Value)
    (done : List Value) :
    Leads (itemsEnd xs) (room + 1) (fun opened => ⟨.rest v, .array done :: opened⟩)
      (fun opened => ⟨.rest (.list ((v :: done).reverse ++ xs)), opened⟩) := by
  -- The items read so far wait in the open list, the last one first, so they change along the induction.
  induction xs generalizing v done with
  | nil => exact ⟨']', .closeArray, [], [], rfl, rfl, .nil, fun _ _ => by rw [List.append_nil]; rfl⟩
  | cons x xs ih =>
    obtain ⟨⟨ts, hsplits, hreads⟩, hxs⟩ := List.forall_mem_cons.1 h
    obtain ⟨c, t, ds, us, htext, hmark, hds, hend⟩ := ih hxs x (v :: done)
    refine ⟨',', .comma, _, _, ?_, rfl, hsplits.append_mark hmark hds, fun opened hroom => ?_⟩
    · rw [← htext]
      simp [itemsEnd]
    · have hinside : (Opened.array (v :: done) :: opened).length + room ≤ depthLimit := by
        rw [List.length_cons]
        omega
      refine foldlM_step rfl (foldlM_trans (hreads _ hinside) ?_)
      rw [hend opened hroom]
      simp

/-- A list is read if its items are. -/
theorem Gives.list {x : Value} {xs : List Value} (h : ∀ y ∈ x :: xs, Gives y.canonicalText.toList room y) :
    Gives ('[' :: (x.canonicalText.toList ++ itemsEnd xs)) (room + 1) (.list (x :: xs)) := by
  obtain ⟨⟨ts, hsplits, hreads⟩, hxs⟩ := List.forall_mem_cons.1 h
  obtain ⟨c, t, ds, us, htext, hmark, hds, hend⟩ := leads_itemsEnd hxs x []
  have hitems := hsplits.append_mark hmark hds
  rw [← htext] at hitems
  refine ⟨_, hitems.cons_mark rfl, fun opened hroom => ?_⟩
  have hinside : (Opened.array [] :: opened).length + room ≤ depthLimit := by
    rw [List.length_cons]
    omega
  have hfirst := foldlM_itemOrEnd (by omega) (hreads _ hinside)
  exact foldlM_step rfl (foldlM_trans hfirst (hend opened hroom))

end Items

section Fields
variable {room : Nat}

/-- A field as it is written. -/
def fieldChars (f : String × Value) : List Char :=
  (Json.quote f.1).toList ++ ':' :: f.2.canonicalText.toList

/-- The texts of further fields, each after a comma, and the end of the object. -/
def fieldsEnd (fs : List (String × Value)) : List Char := fs.flatMap (fun f => ',' :: fieldChars f) ++ ['\x7d']

/-- A field is read wherever a key may stand. -/
theorem exists_field {f : String × Value} (h : Gives f.2.canonicalText.toList room f.2) :
    ∃ us, Splits (fieldChars f) (.scalar (.text f.1) :: us) ∧
      ∀ (entries : List (Value × Value)) (opened : List Opened), opened.length + (room + 1) ≤ depthLimit →
        us.foldlM Reader.next ⟨.colon entries f.1, opened⟩ = some ⟨.rest f.2, .object entries f.1 :: opened⟩ := by
  obtain ⟨ts, hsplits, hreads⟩ := h
  refine ⟨.colon :: ts, (Splits.quote f.1).append_mark rfl hsplits, fun entries opened hroom => ?_⟩
  have hopen : Reader.next ⟨.colon entries f.1, opened⟩ .colon =
      some ⟨.value, .object entries f.1 :: opened⟩ := by
    have hlimit : opened.length < depthLimit := by omega
    simp only [Reader.next, Reader.enter, if_pos hlimit, Option.map_some]
  have hinside : (Opened.object entries f.1 :: opened).length + room ≤ depthLimit := by
    rw [List.length_cons]
    omega
  exact foldlM_step hopen (hreads _ hinside)

/-- The entries of fields, the last one first. -/
def entriesOf (fs : List (String × Value)) : List (Value × Value) := (fs.map fun f => (.text f.1, f.2)).reverse

theorem objectOf_entriesOf (fs : List (String × Value)) :
    Reader.objectOf (entriesOf fs) = Value.dictOf (fs.map fun f => (.text f.1, f.2)) := by
  rw [Reader.objectOf, entriesOf, List.reverse_reverse]

theorem entriesOf_append (fs : List (String × Value)) (f : String × Value) :
    entriesOf (fs ++ [f]) = (.text f.1, f.2) :: entriesOf fs := by
  simp [entriesOf]

private theorem leads_fieldsEnd {fs : List (String × Value)} (h : ∀ f ∈ fs, Gives f.2.canonicalText.toList room f.2)
    (f : String × Value) (done : List (String × Value)) :
    Leads (fieldsEnd fs) (room + 1) (fun opened => ⟨.rest f.2, .object (entriesOf done) f.1 :: opened⟩)
      (fun opened => ⟨.rest (Reader.objectOf (entriesOf (done ++ f :: fs))), opened⟩) := by
  induction fs generalizing f done with
  | nil =>
    refine ⟨'\x7d', .closeObject, [], [], rfl, rfl, .nil, fun _ _ => ?_⟩
    rw [entriesOf_append]
    rfl
  | cons g fs ih =>
    obtain ⟨hg, hfs⟩ := List.forall_mem_cons.1 h
    obtain ⟨ts, hsplits, hreads⟩ := exists_field hg
    obtain ⟨c, t, ds, us, htext, hmark, hds, hend⟩ := ih hfs g (done ++ [f])
    refine ⟨',', .comma, _, _, ?_, rfl, hsplits.append_mark hmark hds, fun opened hroom => ?_⟩
    · rw [← htext]
      simp [fieldsEnd]
    · refine foldlM_step rfl (foldlM_step rfl (foldlM_trans (hreads _ opened hroom) ?_))
      rw [← entriesOf_append, hend opened hroom, List.append_assoc]
      rfl

/-- An object is read if its fields are. -/
theorem Gives.object {f : String × Value} {fs : List (String × Value)} (distinct : ((f :: fs).map (·.1)).Nodup)
    (h : ∀ g ∈ f :: fs, Gives g.2.canonicalText.toList room g.2) :
    Gives ('\x7b' :: (fieldChars f ++ fieldsEnd fs)) (room + 1) (.object (f :: fs)) := by
  obtain ⟨hf, hfs⟩ := List.forall_mem_cons.1 h
  obtain ⟨ts, hsplits, hreads⟩ := exists_field hf
  obtain ⟨c, t, ds, us, htext, hmark, hds, hend⟩ := leads_fieldsEnd hfs f []
  have hfields := hsplits.append_mark hmark hds
  rw [← htext] at hfields
  refine ⟨_, hfields.cons_mark rfl, fun opened hroom => ?_⟩
  refine foldlM_step rfl (foldlM_step rfl (foldlM_trans (hreads _ opened hroom) ?_))
  rw [← Value.dictOf_of_nodup distinct, ← objectOf_entriesOf]
  exact hend opened hroom

end Fields

theorem toList_intercalate_cons (s : String) (ss : List String) :
    (",".intercalate (s :: ss)).toList = s.toList ++ ss.flatMap fun t => ',' :: t.toList := by
  induction ss generalizing s with
  | nil => simp
  | cons t ss ih =>
    rw [String.intercalate_cons_cons, String.toList_append, ih]
    simp

open Value

theorem toList_canonicalText_list (x : Value) (xs : List Value) :
    (Value.list (x :: xs)).canonicalText.toList = '[' :: (x.canonicalText.toList ++ itemsEnd xs) := by
  rw [canonicalText_list, List.map_cons, String.toList_append, String.toList_append, toList_intercalate_cons]
  simp [itemsEnd, List.flatMap_map]

/-- The text of an object whose fields are in order. -/
theorem toList_canonicalText_object {f : String × Value} {fs : List (String × Value)}
    (sorted : ((f :: fs).map (·.1)).Pairwise (· < ·)) :
    (Value.object (f :: fs)).canonicalText.toList = '\x7b' :: (fieldChars f ++ fieldsEnd fs) := by
  have hfield (g : String × Value) : (fieldText (g.1, g.2.canonicalText)).toList = fieldChars g := by
    simp [fieldText, fieldChars]
  have hsorted : fieldTexts (f :: fs) = (f :: fs).map fun g => (g.1, g.2.canonicalText) :=
    mergeSort_eq_self_of_pairwise (by rwa [List.map_map])
  rw [canonicalText_object, hsorted, List.map_map, List.map_cons, String.toList_append, String.toList_append,
    toList_intercalate_cons]
  simp [fieldsEnd, List.flatMap_map, hfield]

theorem fieldTexts_nil : fieldTexts [] = [] := List.mergeSort_nil

/-- Plain data within the limits and in order is read from its canonical text, wherever it stands. -/
theorem gives_canonicalText {w : Value} (ho : w.Ordered) {room : Nat} (hs : w.Storable room) :
    Gives w.canonicalText.toList room w := by
  -- Parts are read inside of one more container, so the room is general.
  induction ho generalizing room with
  | null =>
    rw [canonicalText]
    exact .scalar (.literal (by decide) (by decide) rfl) room
  | bool b =>
    rw [canonicalText]
    cases b with
    | true => exact .scalar (.literal (by decide) (by decide) rfl) room
    | false => exact .scalar (.literal (by decide) (by decide) rfl) room
  | int n =>
    rw [canonicalText]
    cases hs with
    | int _ h =>
      obtain ⟨hne, hword⟩ := word_int n
      exact .scalar (.word hne hword (ofWord?_int h)) room
  | float x =>
    rw [canonicalText]
    cases hs with
    | float _ negative x =>
      obtain ⟨hne, hword, hread⟩ := ofWord?_float negative x
      rw [NumberLayout.text, String.toList_ofList]
      exact .scalar (.word hne hword hread) room
  | text s =>
    rw [canonicalText]
    exact .scalar (.quote s) room
  | @list items h ih =>
    cases items with
    | nil =>
      rw [canonicalText_list]
      exact ⟨[.openArray, .closeArray], .cons_mark rfl (.cons_mark rfl .nil), fun _ _ => rfl⟩
    | cons x xs =>
      obtain ⟨r, rfl, hitems⟩ := (storable_list_iff.1 hs).resolve_left (List.cons_ne_nil x xs)
      rw [toList_canonicalText_list]
      exact .list fun y hy => ih y hy (hitems y hy)
  | @object fields sorted h ih =>
    cases fields with
    | nil =>
      rw [canonicalText_object, fieldTexts_nil]
      exact ⟨[.openObject, .closeObject], .cons_mark rfl (.cons_mark rfl .nil), fun _ _ => rfl⟩
    | cons f fs =>
      obtain ⟨r, rfl, hfields⟩ := (storable_object_iff.1 hs).resolve_left (List.cons_ne_nil f fs)
      rw [toList_canonicalText_object sorted]
      exact .object (sorted.imp ne_of_lt) fun g hg => ih g hg (hfields g hg)

/-- Plain data within the limits of the reader and in order is what its canonical text holds. -/
theorem ofText?_canonicalText {w : Value} (ho : w.Ordered) (hs : w.Storable depthLimit) :
    ofText? w.canonicalText = some w := by
  obtain ⟨ts, hsplits, hreads⟩ := gives_canonicalText ho hs
  have hread : ts.foldlM Reader.next .start = some ⟨.rest w, []⟩ := hreads [] (Nat.le_of_eq (Nat.zero_add _))
  rw [ofText?, hsplits.tokens?_eq, Option.bind_some, ofTokens?, hread]
  rfl

end Json

namespace Value

/-- What can be read can be written. -/
theorem Storable.writable {v : Value} {room : Nat} (h : v.Storable room) : v.Writable := by
  induction h with
  | null => exact IsScalar.null.writable (by simp)
  | bool _ b => exact (IsScalar.bool b).writable (by simp)
  | int _ hshort => exact writable_int_iff.2 (decide_eq_true hshort)
  | float _ negative x => exact (IsScalar.float (.finite negative x)).writable (by simp)
  | text _ s => exact (IsScalar.text s).writable (by simp)
  | emptyList => exact writable_list_iff.2 (List.forall_mem_nil _)
  | emptyObject => exact writable_object_iff.2 (List.forall_mem_nil _)
  | list _ ih => exact writable_list_iff.2 ih
  | object _ ih => exact writable_object_iff.2 ih

/-- The limits of the reader do not depend on the order of entries. -/
theorem Reordered.storable {v w : Value} (h : Reordered v w) {room : Nat} (hv : v.Storable room) :
    w.Storable room := by
  induction h generalizing room with
  | refl => exact hv
  | @list xs ys length_eq h ih =>
    obtain rfl | ⟨r, rfl, hxs⟩ := storable_list_iff.1 hv
    · exact storable_list_iff.2 (.inl (List.eq_nil_of_length_eq_zero length_eq.symm))
    · refine .list fun y hy => ?_
      obtain ⟨x, hx, hxy⟩ := exists_mem_of_forall₂ (forall₂_of_zip length_eq ih) y hy
      exact hxy (hxs x hx)
  | @object fs gs names h ih =>
    obtain rfl | ⟨r, rfl, hfs⟩ := storable_object_iff.1 hv
    · exact storable_object_iff.2 (.inl (List.map_eq_nil_iff.1 names.nil_eq.symm))
    · refine .object fun g hg => ?_
      obtain ⟨v, hv⟩ := exists_mem_of_names names.symm hg
      exact ih g.1 v g.2 hv hg (hfs _ hv)

section Small
variable {v w : Value} {name other : String} {room : Nat}

theorem Ordered.singleton (name : String) (h : v.Ordered) : (Value.object [(name, v)]).Ordered :=
  .object (List.pairwise_singleton _ _) (by simpa using h)

theorem Ordered.pair (h : name < other) (hv : v.Ordered) (hw : w.Ordered) :
    (Value.object [(name, v), (other, w)]).Ordered :=
  .object (List.pairwise_pair.2 h) (by simpa using ⟨hv, hw⟩)

theorem Storable.singleton (name : String) (h : v.Storable room) :
    (Value.object [(name, v)]).Storable (room + 1) :=
  .object (by simpa using h)

theorem Storable.pair (name other : String) (hv : v.Storable room) (hw : w.Storable room) :
    (Value.object [(name, v), (other, w)]).Storable (room + 1) :=
  .object (by simpa using ⟨hv, hw⟩)

end Small

/-- What the canonical text of plain data within the limits of the reader holds differs from the data in the
order of entries only. -/
theorem Plain.exists_ofText? {v : Value} (h : v.Plain) (hs : v.Storable Json.depthLimit) :
    ∃ w, Json.ofText? v.canonicalText = some w ∧ v.Reordered w := by
  obtain ⟨w, hw, hvw⟩ := h.exists_ordered
  refine ⟨w, ?_, hvw⟩
  rw [hvw.canonicalText_eq h]
  exact Json.ofText?_canonicalText hw (hvw.storable hs)

end Value

end Lockstep
