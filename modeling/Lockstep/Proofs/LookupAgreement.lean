import Lockstep.Proofs.DocumentEquality

/-! Equality of documents is agreement under lookups. Equal documents have nodes of the same kind at every place
that lookups lead to, and documents that agree everywhere in this way are equal. One level of the two documents is
compared first; the whole follows along the lookups in one direction and over the parts in the other. -/

namespace Lockstep

/-- A lookup by key or by position. A position may be negative; nothing is found there. -/
inductive Query where
  | key (name : String)
  | index (position : Int)

namespace Value

/-- What a lookup finds in a node. -/
def answer (node : Value) : Query → Option Value
  | .key name => node.lookupKey name
  | .index position => node.lookupIndex position

/-- The node that lookups lead to, one after another. -/
def resolve (root : Value) (queries : List Query) : Option Value := queries.foldlM answer root

/-- Two nodes that are alike without their parts: two objects, two arrays, null twice, the same boolean, the
same text, or two numbers with the same exact value. Not-a-number has no value. -/
inductive Corresponds : Value → Value → Prop where
  | objects {v w : Value} (hv : v.isObject) (hw : w.isObject) : Corresponds v w
  | arrays {v w : Value} (hv : v.isArray) (hw : w.isArray) : Corresponds v w
  | nulls : Corresponds .null .null
  | bools (b : Bool) : Corresponds (.bool b) (.bool b)
  | texts (s : String) : Corresponds (.text s) (.text s)
  | numbers {v w : Value} {q : Quantity} (hv : IsNumber v (q, .finite 0)) (hw : IsNumber w (q, .finite 0))
      (hq : q ≠ .undefined) : Corresponds v w

/-- JSON data in which an array may be any kind of sequence. -/
inductive Data : Value → Prop where
  | null : Data .null
  | bool (b : Bool) : Data (.bool b)
  | int (n : Int) : Data (.int n)
  | float (x : Binary64) : Data (.float x)
  | text (s : String) : Data (.text s)
  | array {v : Value} {items : List Value} (hv : v.items? = some items) (h : ∀ x ∈ items, Data x) : Data v
  | object {fields : List (String × Value)} (distinct : (fields.map (·.1)).Nodup)
      (h : ∀ f ∈ fields, Data f.2) : Data (.object fields)

theorem Plain.data {v : Value} (h : v.Plain) : v.Data := by
  induction h with
  | null => exact .null
  | bool b => exact .bool b
  | int n => exact .int n
  | float x => exact .float x
  | text s => exact .text s
  | list _ ih => exact .array rfl ih
  | object distinct _ ih => exact .object distinct ih

/-- Data is finite, so it does not hold itself. -/
theorem not_data_knot (k : Knot) : ¬ (Value.knot k).Data := by
  intro h
  generalize hv : Value.knot k = v at h
  induction h generalizing k with
  | @array v items hitems _ ih =>
    subst hv
    cases k with
    | list =>
      cases hitems
      exact ih (.knot .list) (by simp) .list rfl
    | dict => cases hitems
  | _ => cases hv

section Arrays
variable {v w : Value} {xs : List Value}

/-- Bytes are compared as the numbers that they are. -/
theorem numbersEqual_iff {data : List UInt8} {ys : List Value} :
    jsonEqual.numbersEqual data ys ↔
      List.Forall₂ (fun (b : UInt8) y => (Value.int b.toNat).jsonEqual y) data ys := by
  induction data generalizing ys with
  | nil => cases ys <;> simp [jsonEqual.numbersEqual]
  | cons b data ih =>
    cases ys with
    | nil => simp [jsonEqual.numbersEqual]
    | cons y ys => cases y <;> simp [jsonEqual.numbersEqual, jsonEqual, ih]

/-- An array is equal to an array with equal items, whatever the kinds of the two. -/
theorem jsonEqual_array_iff (hv : v.Data) (h : v.items? = some xs) :
    v.jsonEqual w ↔ ∃ ys, w.items? = some ys ∧ List.Forall₂ (fun x y => x.jsonEqual y) xs ys := by
  cases v with
  | sequence kind items =>
    cases h
    rw [jsonEqual]
    cases w.items? <;> simp [jsonEqualItems_iff]
  | bytes writable data =>
    cases writable with
    | false => cases h
    | true =>
      cases h
      rw [jsonEqual]
      cases w.items? <;> simp [numbersEqual_iff]
  | knot k => exact absurd hv (not_data_knot k)
  | _ => cases h

/-- No data is an array and an object. -/
theorem Data.entries?_eq_none (hv : v.Data) (h : v.items? = some xs) : v.entries? = none := by
  cases v with
  | knot k => exact absurd hv (not_data_knot k)
  | dict => cases h
  | _ => rfl

/-- The lookups into an array are those into the list of its items. -/
theorem answer_array (hv : v.Data) (h : v.items? = some xs) (query : Query) :
    v.answer query = (list xs).answer query := by
  cases query with
  | key name =>
    simp only [answer, lookupKey, hv.entries?_eq_none h]
    rfl
  | index position =>
    simp only [answer, lookupIndex, h]
    rfl

/-- Lists whose items are related at every position are related. -/
theorem forall₂_of_getElem? {α β : Type} {R : α → β → Prop} {xs : List α} {ys : List β}
    (h : ∀ n : Nat, Option.Rel R xs[n]? ys[n]?) : List.Forall₂ R xs ys := by
  induction xs generalizing ys with
  | nil =>
    cases ys with
    | nil => exact .nil
    | cons y ys => exact nomatch h 0
  | cons x xs ih =>
    cases ys with
    | nil => exact nomatch h 0
    | cons y ys =>
      refine .cons ?_ (ih fun n => h (n + 1))
      cases h 0 with
      | some hxy => exact hxy

/-- Lookups into two lists lead to related parts exactly if the items are related in order. -/
theorem answer_lists_iff {R : Value → Value → Prop} {xs ys : List Value} :
    (∀ query, Option.Rel R ((list xs).answer query) ((list ys).answer query)) ↔ List.Forall₂ R xs ys := by
  constructor
  · intro h
    exact forall₂_of_getElem? fun n => h (.index n)
  · intro h query
    cases query with
    | key name => exact .none
    | index position =>
      cases position with
      | ofNat n => exact getElem?_rel h n
      | negSucc n => exact .none

/-- Lookups into two objects lead to related parts exactly if the fields of each name are related. -/
theorem answer_objects_iff {R : Value → Value → Prop} {fs gs : List (String × Value)} :
    (∀ query, Option.Rel R ((object fs).answer query) ((object gs).answer query)) ↔
      ∀ name, Option.Rel R (fs.lookup name) (gs.lookup name) := by
  constructor
  · intro h name
    have hname := h (.key name)
    rwa [answer, answer, lookupKey_object, lookupKey_object] at hname
  · intro h query
    cases query with
    | key name =>
      rw [answer, answer, lookupKey_object, lookupKey_object]
      exact h name
    | index position => exact .none

/-- Objects with distinct names whose fields are related under every name are equal. -/
theorem jsonEqual_objects_of_lookup {fs gs : List (String × Value)} (distinct : (fs.map (·.1)).Nodup)
    (distinct' : (gs.map (·.1)).Nodup)
    (h : ∀ name, Option.Rel (fun v w => v.jsonEqual w) (fs.lookup name) (gs.lookup name)) :
    (object fs).jsonEqual (object gs) := by
  have hnames (name : String) : name ∈ fs.map (·.1) ↔ name ∈ gs.map (·.1) := by
    rw [← isSome_lookup_iff, ← isSome_lookup_iff]
    have hname := h name
    generalize fs.lookup name = a at hname
    generalize gs.lookup name = b at hname
    cases hname <;> simp
  have hlen := ((List.perm_ext_iff_of_nodup distinct distinct').2 hnames).length_eq
  rw [List.length_map, List.length_map] at hlen
  refine jsonEqual_objects_iff.2 ⟨hlen, fun f hf => ?_⟩
  have hname := h f.1
  rw [(lookup_eq_some_iff_mem distinct).2 hf] at hname
  generalize gs.lookup f.1 = found at hname
  cases hname with
  | some hfw => exact ⟨_, rfl, hfw⟩

end Arrays

theorem Data.isNumber {w : Value} {r : Quantity × Quantity} (hw : w.Data) (hb : ∀ b, w ≠ .bool b)
    (hr : w.number? = some r) : IsNumber w r := by
  cases hw with
  | int n => cases hr; exact .int n
  | float x => cases hr; exact .float x
  | bool b => exact absurd rfl (hb b)
  | @array _ items hitems =>
    cases w with
    | sequence => cases hr
    | bytes => cases hr
    | knot => cases hr
    | _ => cases hitems
  | _ => cases hr

private theorem IsNumber.exists_quantity {v : Value} {q : Quantity × Quantity} (h : IsNumber v q) :
    ∃ a, q = (a, .finite 0) := by
  cases h <;> exact ⟨_, rfl⟩

private theorem IsNumber.answer_eq_none {v : Value} {q : Quantity × Quantity} (h : IsNumber v q) (query : Query) :
    v.answer query = none := by
  cases h <;> cases query <;> rfl

section Leaves
variable {v w : Value}

private theorem corresponds_null_iff : Corresponds .null w ↔ w = .null := by
  constructor
  · intro h
    cases h with
    | nulls => rfl
    | objects hv => cases hv
    | arrays hv => cases hv
    | numbers hv => cases hv
  · rintro rfl
    exact .nulls

private theorem corresponds_bool_iff {b : Bool} : Corresponds (.bool b) w ↔ w = .bool b := by
  constructor
  · intro h
    cases h with
    | bools => rfl
    | objects hv => cases hv
    | arrays hv => cases hv
    | numbers hv => cases hv
  · rintro rfl
    exact .bools b

private theorem corresponds_text_iff {s : String} : Corresponds (.text s) w ↔ w = .text s := by
  constructor
  · intro h
    cases h with
    | texts => rfl
    | objects hv => cases hv
    | arrays hv => cases hv
    | numbers hv => cases hv
  · rintro rfl
    exact .texts s

/-- What corresponds to a number is a number with the same exact value. -/
theorem IsNumber.corresponds_iff {q : Quantity} (h : IsNumber v (q, .finite 0)) :
    Corresponds v w ↔ IsNumber w (q, .finite 0) ∧ q ≠ .undefined := by
  constructor
  · intro hc
    cases hc with
    | numbers hv hw hq =>
      cases h.number?_eq.symm.trans hv.number?_eq
      exact ⟨hw, hq⟩
    | objects hv => cases h <;> cases hv
    | arrays hv => cases h <;> cases hv
    | _ => cases h
  · rintro ⟨hw, hq⟩
    exact .numbers h hw hq

/-- A number is equal to the numbers with its exact value. -/
theorem IsNumber.jsonEqual_iff_corresponds {q : Quantity × Quantity} (h : IsNumber v q) (hw : w.Data) :
    v.jsonEqual w ↔ Corresponds v w := by
  obtain ⟨a, rfl⟩ := h.exists_quantity
  rw [h.jsonEqual_iff, h.corresponds_iff]
  constructor
  · rintro ⟨hb, r, hr, hs⟩
    have hwr := hw.isNumber hb hr
    obtain ⟨b, rfl⟩ := hwr.exists_quantity
    obtain ⟨rfl, ha⟩ := Quantity.equal_iff.1 (Bool.and_eq_true_iff.1 hs).1
    exact ⟨hwr, ha⟩
  · rintro ⟨hwa, ha⟩
    refine ⟨?_, _, hwa.number?_eq, Bool.and_eq_true_iff.2 ⟨Quantity.equal_iff.2 ⟨rfl, ha⟩, rfl⟩⟩
    rintro b rfl
    cases hwa

/-- Nothing is found in nodes that are alike and neither objects nor arrays. -/
theorem Corresponds.answer_eq_none (h : Corresponds v w) (hobject : v.isObject = false)
    (harray : v.isArray = false) (query : Query) : v.answer query = none ∧ w.answer query = none := by
  cases h with
  | objects hv => rw [hobject] at hv; cases hv
  | arrays hv => rw [harray] at hv; cases hv
  | numbers hv hw => exact ⟨hv.answer_eq_none query, hw.answer_eq_none query⟩
  | _ => cases query <;> exact ⟨rfl, rfl⟩

private theorem iff_parts_of_leaf (h : v.jsonEqual w ↔ Corresponds v w) (hobject : v.isObject = false)
    (harray : v.isArray = false) : v.jsonEqual w ↔ Corresponds v w ∧
      ∀ query, Option.Rel (fun a b => a.jsonEqual b) (v.answer query) (w.answer query) := by
  rw [h]
  refine ⟨fun hc => ⟨hc, fun query => ?_⟩, And.left⟩
  obtain ⟨hv, hw⟩ := hc.answer_eq_none hobject harray query
  rw [hv, hw]
  exact .none

end Leaves

section Containers
variable {v w : Value}

private theorem Data.exists_fields (hw : w.Data) (h : w.isObject) : ∃ gs : List (String × Value),
    w = .object gs ∧ (gs.map (·.1)).Nodup := by
  cases hw with
  | object distinct => exact ⟨_, rfl, distinct⟩
  | array hitems hxs =>
    cases w with
    | knot k => exact absurd (.array hitems hxs) (not_data_knot k)
    | dict => cases hitems
    | _ => cases h
  | _ => cases h

/-- What corresponds to an array is an array. -/
theorem Corresponds.isArray_right (h : Corresponds v w) (hv : v.isArray) (hobject : v.isObject = false) :
    w.isArray := by
  cases h with
  | arrays _ hw => exact hw
  | objects ho => rw [hobject] at ho; cases ho
  | numbers hn => cases hn <;> cases hv
  | _ => cases hv

/-- What corresponds to an object is an object. -/
theorem Corresponds.isObject_right (h : Corresponds v w) (hv : v.isObject) (harray : v.isArray = false) :
    w.isObject := by
  cases h with
  | objects _ hw => exact hw
  | arrays ha => rw [harray] at ha; cases ha
  | numbers hn => cases hn <;> cases hv
  | _ => cases hv

/-- One level of equality: the nodes are alike, and every lookup leads to equal parts, or to none in both. -/
theorem Data.jsonEqual_iff_parts (hv : v.Data) (hw : w.Data) :
    v.jsonEqual w ↔ Corresponds v w ∧
      ∀ query, Option.Rel (fun a b => a.jsonEqual b) (v.answer query) (w.answer query) := by
  cases hv with
  | null => exact iff_parts_of_leaf (jsonEqual_null_iff.trans corresponds_null_iff.symm) rfl rfl
  | bool b => exact iff_parts_of_leaf (jsonEqual_bool_iff.trans corresponds_bool_iff.symm) rfl rfl
  | text s => exact iff_parts_of_leaf (jsonEqual_text_iff.trans corresponds_text_iff.symm) rfl rfl
  | int n => exact iff_parts_of_leaf ((IsNumber.int n).jsonEqual_iff_corresponds hw) rfl rfl
  | float x => exact iff_parts_of_leaf ((IsNumber.float x).jsonEqual_iff_corresponds hw) rfl rfl
  | @array _ xs hxs h =>
    have hv : v.Data := .array hxs h
    have harray : v.isArray := Option.isSome_of_eq_some hxs
    have hobject : v.isObject = false := by rw [isObject, hv.entries?_eq_none hxs]; rfl
    rw [jsonEqual_array_iff hv hxs]
    constructor
    · rintro ⟨ys, hys, hall⟩
      refine ⟨.arrays harray (Option.isSome_of_eq_some hys), fun query => ?_⟩
      rw [answer_array hv hxs, answer_array hw hys]
      exact answer_lists_iff.2 hall query
    · rintro ⟨hc, hparts⟩
      obtain ⟨ys, hys⟩ := Option.isSome_iff_exists.1 (hc.isArray_right harray hobject)
      refine ⟨ys, hys, answer_lists_iff.1 fun query => ?_⟩
      rw [← answer_array hv hxs, ← answer_array hw hys]
      exact hparts query
  | @object fs distinct h =>
    constructor
    · intro he
      obtain ⟨es, hes, -⟩ := jsonEqual_object_iff.1 he
      have hobject : w.isObject := Option.isSome_of_eq_some hes
      obtain ⟨gs, rfl, distinct'⟩ := hw.exists_fields hobject
      exact ⟨.objects rfl hobject, answer_objects_iff.2 (lookup_rel_of_jsonEqual distinct distinct' he)⟩
    · rintro ⟨hc, hparts⟩
      obtain ⟨gs, rfl, distinct'⟩ := hw.exists_fields (hc.isObject_right rfl rfl)
      exact jsonEqual_objects_of_lookup distinct distinct' (answer_objects_iff.1 hparts)

/-- In equal documents a segment leads to equal parts, or to none in both. -/
theorem Plain.lookup_rel (hv : v.Plain) (hw : w.Plain) (h : v.jsonEqual w) (segment : Segment) :
    Option.Rel (fun a b => a.jsonEqual b) (v.lookup segment) (w.lookup segment) := by
  have hparts := ((hv.data.jsonEqual_iff_parts hw.data).1 h).2
  cases segment with
  | key name => exact hparts (.key name)
  | index n => exact hparts (.index n)

end Containers

section Agreement
variable {v w : Value}

private theorem mem_of_answer_list {xs : List Value} {part : Value} {query : Query}
    (h : (list xs).answer query = some part) : part ∈ xs := by
  cases query with
  | key name => cases h
  | index position =>
    cases position with
    | ofNat n => exact List.mem_of_getElem? h
    | negSucc n => cases h

private theorem exists_mem_of_answer_object {fs : List (String × Value)} {part : Value} {query : Query}
    (h : (object fs).answer query = some part) : ∃ f ∈ fs, f.2 = part := by
  cases query with
  | key name => exact ⟨(name, part), mem_of_lookup ((lookupKey_object fs name).symm.trans h), rfl⟩
  | index position => cases h

/-- Induction over the parts that lookups find. -/
theorem Data.induct_parts {motive : ∀ v : Value, v.Data → Prop}
    (node : ∀ (v : Value) (hv : v.Data), (∀ query part, v.answer query = some part →
      ∃ hp : part.Data, motive part hp) → motive v hv) (v : Value) (hv : v.Data) : motive v hv := by
  induction hv with
  | @array v xs hxs h ih =>
    refine node v (.array hxs h) fun query part hpart => ?_
    rw [answer_array (.array hxs h) hxs] at hpart
    have hmem := mem_of_answer_list hpart
    exact ⟨h part hmem, ih part hmem⟩
  | @object fs distinct h ih =>
    refine node _ (.object distinct h) fun query part hpart => ?_
    obtain ⟨f, hf, rfl⟩ := exists_mem_of_answer_object hpart
    exact ⟨h f hf, ih f hf⟩
  | _ => exact node _ _ fun query part hpart => by cases query <;> cases hpart

/-- What a lookup finds in data is data. -/
theorem Data.answer {part : Value} {query : Query} (hv : v.Data) (h : v.answer query = some part) :
    part.Data := by
  induction v, hv using Data.induct_parts with
  | node v hv ih => exact (ih query part h).1

private theorem optionRel_iff {α β : Type} {R : α → β → Prop} {a : Option α} {b : Option β} :
    Option.Rel R a b ↔ (a.isSome ↔ b.isSome) ∧ ∀ x y, a = some x → b = some y → R x y := by
  cases a <;> cases b <;> simp

private theorem resolve_cons (v : Value) (query : Query) (queries : List Query) :
    v.resolve (query :: queries) = (v.answer query).bind fun part => part.resolve queries := rfl

/-- In equal data, lookups lead to nodes that are alike, or to none in both. -/
theorem Data.corresponds_of_jsonEqual (hv : v.Data) (hw : w.Data) (h : v.jsonEqual w) (queries : List Query) :
    Option.Rel Corresponds (v.resolve queries) (w.resolve queries) := by
  induction queries generalizing v w with
  | nil => exact .some ((hv.jsonEqual_iff_parts hw).1 h).1
  | cons query queries ih =>
    have hpart := ((hv.jsonEqual_iff_parts hw).1 h).2 query
    rw [resolve_cons, resolve_cons]
    cases hvq : v.answer query <;> cases hwq : w.answer query <;> rw [hvq, hwq] at hpart
    · exact .none
    · cases hpart
    · cases hpart
    · cases hpart with
      | some hab => exact ih (hv.answer hvq) (hw.answer hwq) hab

/-- Data that is alike wherever lookups lead is equal. -/
theorem Data.jsonEqual_of_corresponds (hv : v.Data) (hw : w.Data)
    (h : ∀ queries, Option.Rel Corresponds (v.resolve queries) (w.resolve queries)) : v.jsonEqual w := by
  induction v, hv using Data.induct_parts generalizing w with
  | node v hv ih =>
    have hroot : Corresponds v w := by
      cases h [] with
      | some hc => exact hc
    refine (hv.jsonEqual_iff_parts hw).2 ⟨hroot, fun query => ?_⟩
    have hpart (queries : List Query) := h (query :: queries)
    simp only [resolve_cons] at hpart
    cases hvq : v.answer query <;> cases hwq : w.answer query <;> rw [hvq, hwq] at hpart
    · exact .none
    · exact nomatch hpart []
    · exact nomatch hpart []
    · obtain ⟨_, hih⟩ := ih query _ hvq
      exact .some (hih (hw.answer hwq) hpart)

end Agreement

end Value

/-- Equality of documents is agreement under lookups. Two documents are equal exactly if every sequence of
lookups leads to a node in both or in neither, and to nodes that are alike where it leads to both. -/
theorem jsonEqual_iff_lookups {v w : Value} (hv : v.Data) (hw : w.Data) :
    v.jsonEqual w ↔ ∀ queries : List Query, ((v.resolve queries).isSome ↔ (w.resolve queries).isSome) ∧
      ∀ a b, v.resolve queries = some a → w.resolve queries = some b → a.Corresponds b := by
  constructor
  · intro h queries
    exact Value.optionRel_iff.1 (hv.corresponds_of_jsonEqual hw h queries)
  · intro h
    exact hv.jsonEqual_of_corresponds hw fun queries => Value.optionRel_iff.2 (h queries)

theorem jsonEqual_iff_lookups_zeros :
    let v : Value := .object [("zero", .sequence .tuple [.int 0]), ("ok", .bool true)]
    let w : Value := .object [("ok", .bool true), ("zero", .list [.float (.finite true .zero)])]
    v.Data ∧ w.Data ∧ v.jsonEqual w ∧ ∀ queries : List Query,
      ((v.resolve queries).isSome ↔ (w.resolve queries).isSome) ∧
        ∀ a b, v.resolve queries = some a → w.resolve queries = some b → a.Corresponds b := by
  intro v w
  have hv : v.Data := by
    refine .object (by decide) ?_
    simp only [List.forall_mem_cons]
    exact ⟨.array rfl (by simpa using .int 0), .bool true, List.forall_mem_nil _⟩
  have hw : w.Data := by
    refine .object (by decide) ?_
    simp only [List.forall_mem_cons]
    exact ⟨.bool true, .array rfl (by simpa using .float _), List.forall_mem_nil _⟩
  have hequal : v.jsonEqual w := by
    decide +kernel
  exact ⟨hv, hw, hequal, (jsonEqual_iff_lookups hv hw).1 hequal⟩

end Lockstep
