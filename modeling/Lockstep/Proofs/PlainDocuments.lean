import Mathlib.Data.List.Nodup
import Lockstep.Value.Lookup

/-! Plain documents: null, booleans, numbers, texts, lists, and objects whose keys are texts, no two of them
the same. Looking up a key in an object is looking it up in the list of its fields. -/

namespace Lockstep

section Fields
variable {α : Type} {fields : List (String × α)} {name : String} {v : α}

theorem mem_of_lookup (h : fields.lookup name = some v) : (name, v) ∈ fields := by
  obtain ⟨before, after, rfl, -⟩ := List.lookup_eq_some_iff.1 h
  exact List.mem_append_right _ List.mem_cons_self

/-- Where keys are distinct, every field is the one that is found under its name. -/
theorem lookup_eq_some_iff_mem (distinct : (fields.map (·.1)).Nodup) :
    fields.lookup name = some v ↔ (name, v) ∈ fields := by
  refine ⟨mem_of_lookup, fun h => ?_⟩
  induction fields with
  | nil => cases h
  | cons f fields ih =>
    obtain ⟨hf, hfields⟩ := List.nodup_cons.1 distinct
    rcases List.mem_cons.1 h with rfl | h
    · exact List.lookup_cons_self
    · have hne : name ≠ f.1 := fun he => hf (List.mem_map.2 ⟨_, h, he⟩)
      rw [List.lookup_cons, beq_false_of_ne hne]
      exact ih hfields h

theorem isSome_lookup_iff : (fields.lookup name).isSome ↔ name ∈ fields.map (·.1) := by
  rw [List.lookup_isSome_iff, List.mem_map]
  exact exists_congr fun f => and_congr_right fun _ => beq_iff_eq.trans eq_comm

end Fields

namespace Value

theorem object_eq_dict (fields : List (String × Value)) :
    object fields = .dict (fields.map fun f => (.text f.1, f.2)) := rfl

@[simp] theorem same_text (a b : String) : same (.text a) (.text b) = (a == b) := by rw [same]

/-- Among text keys, the entry of a key is the field of that name. -/
@[simp] theorem findEntry?_fields (fields : List (String × Value)) (name : String) :
    findEntry? (fields.map fun f => (.text f.1, f.2)) (.text name) = fields.lookup name := by
  induction fields with
  | nil => rfl
  | cons f fields ih =>
    rw [List.map_cons, List.lookup_cons, ← ih, findEntry?, List.find?_cons, same_text]
    cases name == f.1 <;> rfl

@[simp] theorem lookupKey_object (fields : List (String × Value)) (name : String) :
    (object fields).lookupKey name = fields.lookup name := findEntry?_fields fields name

@[simp] theorem lookupIndex_object (fields : List (String × Value)) (position : Int) :
    (object fields).lookupIndex position = none := rfl

@[simp] theorem lookupKey_list (items : List Value) (name : String) : (list items).lookupKey name = none := rfl

@[simp] theorem lookupIndex_list (items : List Value) (n : Nat) :
    (list items).lookupIndex n = items[n]? := rfl

/-- Storing a field under a new name puts it at the end. -/
theorem insertEntry_fields {fields : List (String × Value)} {name : String} (h : name ∉ fields.map (·.1))
    (v : Value) :
    insertEntry (.text name) v (fields.map fun f => (.text f.1, f.2)) =
      (fields ++ [(name, v)]).map fun f => (.text f.1, f.2) := by
  induction fields with
  | nil => rfl
  | cons f fields ih =>
    obtain ⟨hf, hfields⟩ := not_or.1 (List.mem_cons.not.1 h)
    have hne : (Value.text name).same (.text f.1) = false := by simpa using hf
    rw [List.map_cons, insertEntry, hne, if_neg Bool.false_ne_true, ih hfields]
    rfl

/-- Storing a field changes what is found under its name and nothing else. -/
theorem exists_insertEntry_fields (fields : List (String × Value)) (name : String) (v : Value) :
    ∃ gs : List (String × Value),
      insertEntry (.text name) v (fields.map fun f => (.text f.1, f.2)) = gs.map (fun f => (.text f.1, f.2)) ∧
      ((fields.map (·.1)).Nodup → (gs.map (·.1)).Nodup) ∧ ∀ k, gs.lookup k = ((name, v) :: fields).lookup k := by
  induction fields with
  | nil => exact ⟨[(name, v)], rfl, fun _ => List.nodup_singleton _, fun _ => rfl⟩
  | cons f fields ih =>
    obtain ⟨gs, hgs, hnodup, hlookup⟩ := ih
    obtain ⟨other, w⟩ := f
    rw [List.map_cons, insertEntry, same_text]
    by_cases hname : name = other
    · rw [if_pos (beq_iff_eq.2 hname)]
      refine ⟨(other, v) :: fields, rfl, id, fun k => ?_⟩
      rw [List.lookup_cons, List.lookup_cons, List.lookup_cons, hname]
      cases k == other <;> rfl
    · rw [if_neg (mt beq_iff_eq.1 hname), hgs]
      have hfind (k : String) : ((other, w) :: gs).lookup k = ((name, v) :: (other, w) :: fields).lookup k := by
        rw [List.lookup_cons, hlookup, List.lookup_cons, List.lookup_cons, List.lookup_cons]
        by_cases hk : k = other
        · rw [hk, beq_self_eq_true, beq_false_of_ne (Ne.symm hname)]
        · rw [beq_false_of_ne hk]
      refine ⟨(other, w) :: gs, rfl, fun h => ?_, hfind⟩
      obtain ⟨hother, hfields⟩ := List.nodup_cons.1 h
      refine List.nodup_cons.2 ⟨fun hmem => hother (isSome_lookup_iff.1 ?_), hnodup hfields⟩
      rw [← isSome_lookup_iff, hlookup, List.lookup_cons, beq_false_of_ne (Ne.symm hname)] at hmem
      exact hmem

/-- Entries of which none has a key equal to that of an earlier one. -/
def DistinctKeys {α : Type} (entries : List (Value × α)) : Prop := entries.Pairwise fun e f => f.1.same e.1 = false

private theorem exists_key_of_mem_insertEntry {α : Type} {key : Value} {value : α} {entries : List (Value × α)}
    {e : Value × α} (h : e ∈ insertEntry key value entries) : e.1 = key ∨ ∃ f ∈ entries, f.1 = e.1 := by
  induction entries with
  | nil =>
    cases List.mem_singleton.1 h
    exact .inl rfl
  | cons f entries ih =>
    rw [insertEntry] at h
    split at h
    · rcases List.mem_cons.1 h with rfl | h
      · exact .inr ⟨f, List.mem_cons_self, rfl⟩
      · exact .inr ⟨e, List.mem_cons_of_mem _ h, rfl⟩
    · rcases List.mem_cons.1 h with rfl | h
      · exact .inr ⟨f, List.mem_cons_self, rfl⟩
      · exact (ih h).imp_right fun ⟨g, hg, hkey⟩ => ⟨g, List.mem_cons_of_mem _ hg, hkey⟩

/-- Storing a value under a key keeps the keys distinct. -/
theorem DistinctKeys.insertEntry {α : Type} {entries : List (Value × α)} (h : DistinctKeys entries) (key : Value)
    (value : α) : DistinctKeys (insertEntry key value entries) := by
  induction entries with
  | nil => exact List.pairwise_singleton _ _
  | cons e entries ih =>
    obtain ⟨he, hentries⟩ := List.pairwise_cons.1 h
    rw [Value.insertEntry]
    split
    · exact List.pairwise_cons.2 ⟨he, hentries⟩
    · rename_i hkey
      refine List.pairwise_cons.2 ⟨fun f hf => ?_, ih hentries⟩
      rcases exists_key_of_mem_insertEntry hf with hfkey | ⟨g, hg, hfkey⟩
      · rw [hfkey]
        exact Bool.eq_false_iff.2 hkey
      · exact hfkey ▸ he g hg

/-- The dictionary of fields with new names appended. -/
theorem foldl_insertEntry_of_nodup (fs gs : List (String × Value)) (distinct : ((gs ++ fs).map (·.1)).Nodup) :
    (fs.map fun f => (Value.text f.1, f.2)).foldl (fun d e => insertEntry e.1 e.2 d)
      (gs.map fun f => (.text f.1, f.2)) = (gs ++ fs).map fun f => (.text f.1, f.2) := by
  induction fs generalizing gs with
  | nil => rw [List.append_nil]; rfl
  | cons f fs ih =>
    have hf : f.1 ∉ gs.map (·.1) := by
      rw [List.map_append, List.map_cons] at distinct
      exact fun h => List.disjoint_of_nodup_append distinct h List.mem_cons_self
    rw [List.map_cons, List.foldl_cons, insertEntry_fields hf, ih _ (by simpa using distinct), List.append_assoc]
    rfl

/-- The dictionary of fields with distinct names is the object with these fields. -/
theorem dictOf_of_nodup {fs : List (String × Value)} (distinct : (fs.map (·.1)).Nodup) :
    dictOf (fs.map fun f => (.text f.1, f.2)) = object fs :=
  congrArg Value.dict (foldl_insertEntry_of_nodup fs [] distinct)

private theorem exists_foldl_insertEntry (fs gs : List (String × Value)) (distinct : (gs.map (·.1)).Nodup) :
    ∃ hs : List (String × Value),
      (fs.map fun f => (Value.text f.1, f.2)).foldl (fun d e => insertEntry e.1 e.2 d)
        (gs.map fun f => (.text f.1, f.2)) = hs.map (fun f => (.text f.1, f.2)) ∧
      (hs.map (·.1)).Nodup ∧ ∀ k, hs.lookup k = (fs.reverse ++ gs).lookup k := by
  induction fs generalizing gs with
  | nil => exact ⟨gs, rfl, distinct, fun _ => rfl⟩
  | cons f fs ih =>
    obtain ⟨gs', hgs', hnodup, hlookup⟩ := exists_insertEntry_fields gs f.1 f.2
    obtain ⟨hs, hhs, hnodup', hlookup'⟩ := ih gs' (hnodup distinct)
    rw [List.map_cons, List.foldl_cons, hgs']
    refine ⟨hs, hhs, hnodup', fun k => ?_⟩
    rw [hlookup', List.lookup_append, hlookup, List.reverse_cons, List.append_assoc, List.lookup_append]
    rfl

/-- The dictionary of any fields is an object, which has the last of the fields of one name. -/
theorem exists_dictOf (fs : List (String × Value)) :
    ∃ gs : List (String × Value), dictOf (fs.map fun f => (.text f.1, f.2)) = object gs ∧
      (gs.map (·.1)).Nodup ∧ ∀ k, gs.lookup k = fs.reverse.lookup k := by
  obtain ⟨gs, hgs, hnodup, hlookup⟩ := exists_foldl_insertEntry fs [] List.nodup_nil
  refine ⟨gs, congrArg Value.dict hgs, hnodup, fun k => ?_⟩
  rw [hlookup, List.append_nil]

/-- JSON data: null, booleans, numbers, texts, lists, and objects with distinct keys. -/
inductive Plain : Value → Prop where
  | null : Plain .null
  | bool (b : Bool) : Plain (.bool b)
  | int (n : Int) : Plain (.int n)
  | float (x : Binary64) : Plain (.float x)
  | text (s : String) : Plain (.text s)
  | list {items : List Value} (h : ∀ v ∈ items, Plain v) : Plain (.list items)
  | object {fields : List (String × Value)} (distinct : (fields.map (·.1)).Nodup)
      (h : ∀ f ∈ fields, Plain f.2) : Plain (.object fields)

theorem object_injective {fs gs : List (String × Value)} (h : object fs = object gs) : fs = gs :=
  List.map_injective_iff.2 (fun f g hfg => by
    obtain ⟨hname, hv⟩ := Prod.mk.inj hfg
    exact Prod.ext (Value.text.inj hname) hv) (Value.dict.inj h)

theorem plain_object_iff {fields : List (String × Value)} :
    (object fields).Plain ↔ (fields.map (·.1)).Nodup ∧ ∀ f ∈ fields, f.2.Plain := by
  refine ⟨fun h => ?_, fun h => .object h.1 h.2⟩
  generalize hv : object fields = v at h
  cases h with
  | object distinct h => cases object_injective hv; exact ⟨distinct, h⟩
  | _ => cases hv

/-- What a lookup finds in plain data is plain data. -/
theorem Plain.lookup {node part : Value} {segment : Segment} (hp : node.Plain)
    (h : node.lookup segment = some part) : part.Plain := by
  cases hp with
  | list hitems => cases segment with
    | key name => cases h
    | index n => exact hitems part (List.mem_of_getElem? h)
  | object _ hfields => cases segment with
    | key name => exact hfields _ (mem_of_lookup ((lookupKey_object _ name).symm.trans h))
    | index n => cases h
  | _ => cases segment <;> cases h

end Value

end Lockstep
