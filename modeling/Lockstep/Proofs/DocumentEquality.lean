import Mathlib.Data.List.Forall2
import Mathlib.Data.List.Perm.Subperm
import Lockstep.Json.Equality
import Lockstep.Proofs.PlainDocuments

/-! Equality of plain documents. It holds between objects whose fields match by name and between lists whose
items match in order; it is symmetric, and equal documents are equal to the same values. -/

namespace Lockstep

namespace Quantity

theorem equal_iff {a b : Quantity} : a.equal b ↔ a = b ∧ a ≠ .undefined := by
  cases a <;> cases b <;> simp [equal]

private theorem equal_symm {a b : Quantity} (h : a.equal b) : b.equal a := by
  cases a <;> cases b <;> simp_all [equal]

private theorem equal_right {a b c : Quantity} (h : a.equal b) (hc : a.equal c) : b.equal c := by
  cases a <;> cases b <;> cases c <;> simp_all [equal]

end Quantity

namespace Value

private theorem sameNumber_symm {a b : Quantity × Quantity} (h : sameNumber a b) : sameNumber b a := by
  obtain ⟨h₁, h₂⟩ := Bool.and_eq_true_iff.1 h
  exact Bool.and_eq_true_iff.2 ⟨Quantity.equal_symm h₁, Quantity.equal_symm h₂⟩

private theorem sameNumber_right {a b c : Quantity × Quantity} (h : sameNumber a b) (hc : sameNumber a c) :
    sameNumber b c := by
  obtain ⟨h₁, h₂⟩ := Bool.and_eq_true_iff.1 h
  obtain ⟨h₁', h₂'⟩ := Bool.and_eq_true_iff.1 hc
  exact Bool.and_eq_true_iff.2 ⟨Quantity.equal_right h₁ h₁', Quantity.equal_right h₂ h₂'⟩

theorem jsonEqual_null_iff {w : Value} : null.jsonEqual w ↔ w = .null := by cases w <;> simp [jsonEqual]

theorem jsonEqual_bool_iff {b : Bool} {w : Value} : (bool b).jsonEqual w ↔ w = .bool b := by
  cases w <;> simp [jsonEqual]
  exact eq_comm

theorem jsonEqual_text_iff {s : String} {w : Value} : (text s).jsonEqual w ↔ w = .text s := by
  cases w <;> simp [jsonEqual]
  exact eq_comm

theorem jsonEqualItems_iff {xs ys : List Value} :
    jsonEqualItems xs ys ↔ List.Forall₂ (fun x y => x.jsonEqual y) xs ys := by
  induction xs generalizing ys with
  | nil => cases ys <;> simp [jsonEqualItems]
  | cons x xs ih => cases ys <;> simp [jsonEqualItems, ih]

theorem jsonEqual_list_iff {xs : List Value} {w : Value} :
    (list xs).jsonEqual w ↔ ∃ ys, w.items? = some ys ∧ List.Forall₂ (fun x y => x.jsonEqual y) xs ys := by
  rw [jsonEqual]
  cases w.items? with
  | none => simp
  | some ys => simp [jsonEqualItems_iff]

theorem jsonEqualEntries_iff {fs : List (String × Value)} {es : List (Value × Value)} :
    jsonEqualEntries (fs.map fun f => (.text f.1, f.2)) es ↔
      ∀ f ∈ fs, ∃ x, findEntry? es (.text f.1) = some x ∧ f.2.jsonEqual x := by
  induction fs with
  | nil => simp [jsonEqualEntries]
  | cons f fs ih =>
    rw [List.map_cons, jsonEqualEntries, Bool.and_eq_true, ih, List.forall_mem_cons]
    cases findEntry? es (.text f.1) <;> simp

theorem jsonEqual_object_iff {fs : List (String × Value)} {w : Value} :
    (object fs).jsonEqual w ↔ ∃ es, w.entries? = some es ∧ fs.length = es.length ∧
      ∀ f ∈ fs, ∃ x, findEntry? es (.text f.1) = some x ∧ f.2.jsonEqual x := by
  rw [object_eq_dict, jsonEqual]
  cases w.entries? with
  | none => simp
  | some es => simp [jsonEqualEntries_iff]

/-- Equality of two objects by their fields. -/
theorem jsonEqual_objects_iff {fs gs : List (String × Value)} :
    (object fs).jsonEqual (object gs) ↔ fs.length = gs.length ∧
      ∀ f ∈ fs, ∃ w, gs.lookup f.1 = some w ∧ f.2.jsonEqual w := by
  rw [jsonEqual_object_iff]
  simp [object_eq_dict, entries?]

/-- As many distinct names as in another list, all of which are in that list, are all of its names. -/
theorem perm_of_lookup {α β : Type} {fs : List (String × α)} {gs : List (String × β)}
    (distinct : (fs.map (·.1)).Nodup) (length_eq : fs.length = gs.length)
    (h : ∀ f ∈ fs, (gs.lookup f.1).isSome) : (fs.map (·.1)).Perm (gs.map (·.1)) := by
  have hsub : fs.map (·.1) ⊆ gs.map (·.1) := by
    intro name hname
    obtain ⟨f, hf, rfl⟩ := List.mem_map.1 hname
    exact isSome_lookup_iff.1 (h f hf)
  exact (List.subperm_of_subset distinct hsub).perm_of_length_le (by simp [length_eq])

/-- A number that is no boolean. -/
inductive IsNumber : Value → Quantity × Quantity → Prop where
  | int (n : Int) : IsNumber (.int n) (.finite n, .finite 0)
  | float (x : Binary64) : IsNumber (.float x) (x.quantity, .finite 0)

theorem IsNumber.number?_eq {v : Value} {q : Quantity × Quantity} (h : IsNumber v q) : v.number? = some q := by
  cases h <;> rfl

theorem numeric_iff {v w : Value} {q : Quantity × Quantity} (h : v.number? = some q) :
    same.numeric v w ↔ ∃ r, w.number? = some r ∧ sameNumber q r := by
  rw [same.numeric, h]
  cases w.number? <;> simp

private theorem IsNumber.jsonEqual_bool {v : Value} {q : Quantity × Quantity} (h : IsNumber v q) (b : Bool) :
    v.jsonEqual (.bool b) = false := by
  cases h <;> simp [jsonEqual]

private theorem IsNumber.jsonEqual_eq {v : Value} {q : Quantity × Quantity} (h : IsNumber v q) {w : Value}
    (hb : ∀ b, w ≠ .bool b) : v.jsonEqual w = same.numeric v w := by
  cases w with
  | bool b => exact absurd rfl (hb b)
  | _ => cases h <;> simp [jsonEqual, same]

/-- A number is equal to what has the same exact value and is no boolean. -/
theorem IsNumber.jsonEqual_iff {v : Value} {q : Quantity × Quantity} (h : IsNumber v q) (w : Value) :
    v.jsonEqual w ↔ (∀ b, w ≠ .bool b) ∧ ∃ r, w.number? = some r ∧ sameNumber q r := by
  by_cases hb : ∀ b, w ≠ .bool b
  · rw [h.jsonEqual_eq hb, numeric_iff h.number?_eq]
    exact (and_iff_right hb).symm
  · obtain ⟨b, rfl⟩ := not_forall_not.1 hb
    rw [h.jsonEqual_bool b]
    exact ⟨nofun, fun hw => absurd hw.1 hb⟩

/-- Plain data that is equal to a number is a number. -/
theorem Plain.isNumber {w : Value} {r : Quantity × Quantity} (hw : w.Plain) (hb : ∀ b, w ≠ .bool b)
    (hr : w.number? = some r) : IsNumber w r := by
  cases hw with
  | int n => cases hr; exact .int n
  | float x => cases hr; exact .float x
  | bool b => exact absurd rfl (hb b)
  | _ => cases hr

section Items
variable {α β : Type} {R : α → β → Prop} {xs : List α} {ys : List β}

theorem forall₂_imp_of_mem {S : α → β → Prop} (h : List.Forall₂ R xs ys) (himp : ∀ x ∈ xs, ∀ y, R x y → S x y) :
    List.Forall₂ S xs ys :=
  ((List.forall₂_and_left xs ys).2 ⟨himp, h⟩).imp fun _ y hx => hx.1 y hx.2

private theorem forall₂_swap {S : β → α → Prop} (h : List.Forall₂ R xs ys)
    (hswap : ∀ x ∈ xs, ∀ y ∈ ys, R x y → S y x) : List.Forall₂ S ys xs := by
  induction h with
  | nil => exact .nil
  | cons hxy _ ih =>
    exact .cons (hswap _ List.mem_cons_self _ List.mem_cons_self hxy)
      (ih fun x hx y hy => hswap x (List.mem_cons_of_mem _ hx) y (List.mem_cons_of_mem _ hy))

theorem forall₂_right {γ : Type} {S : α → γ → Prop} {T : β → γ → Prop} {zs : List γ}
    (h : List.Forall₂ R xs ys) (hz : List.Forall₂ S xs zs)
    (hright : ∀ x ∈ xs, ∀ y ∈ ys, ∀ z, R x y → S x z → T y z) : List.Forall₂ T ys zs := by
  induction h generalizing zs with
  | nil => cases hz; exact .nil
  | cons hxy _ ih =>
    cases hz with
    | cons hxz hz =>
      exact .cons (hright _ List.mem_cons_self _ List.mem_cons_self _ hxy hxz)
        (ih hz fun x hx y hy => hright x (List.mem_cons_of_mem _ hx) y (List.mem_cons_of_mem _ hy))

theorem exists_mem_of_forall₂ (h : List.Forall₂ R xs ys) : ∀ y ∈ ys, ∃ x ∈ xs, R x y := by
  induction h with
  | nil => exact List.forall_mem_nil _
  | cons hxy _ ih =>
    refine List.forall_mem_cons.2 ⟨⟨_, List.mem_cons_self, hxy⟩, fun y hy => ?_⟩
    obtain ⟨x, hx, hxy⟩ := ih y hy
    exact ⟨x, List.mem_cons_of_mem _ hx, hxy⟩

end Items

/-- In equal objects the fields of the second one, too, are fields of the first one with an equal value. -/
theorem lookup_of_jsonEqual_objects {fs gs : List (String × Value)} (distinct : (fs.map (·.1)).Nodup)
    (distinct' : (gs.map (·.1)).Nodup) (h : (object fs).jsonEqual (object gs)) {g : String × Value}
    (hg : g ∈ gs) : ∃ v, fs.lookup g.1 = some v ∧ v.jsonEqual g.2 := by
  obtain ⟨hlen, hall⟩ := jsonEqual_objects_iff.1 h
  have hperm : (fs.map (·.1)).Perm (gs.map (·.1)) := by
    refine perm_of_lookup distinct hlen fun f hf => ?_
    obtain ⟨w, hw, -⟩ := hall f hf
    exact Option.isSome_of_eq_some hw
  have hname : g.1 ∈ fs.map (·.1) := hperm.mem_iff.2 (List.mem_map_of_mem hg)
  obtain ⟨v, hv⟩ := Option.isSome_iff_exists.1 (isSome_lookup_iff.2 hname)
  obtain ⟨w, hw, hvw⟩ := hall (g.1, v) (mem_of_lookup hv)
  have hgw : g.2 = w := Option.some.inj (((lookup_eq_some_iff_mem distinct').2 hg).symm.trans hw)
  exact ⟨v, hv, hgw ▸ hvw⟩

/-- Equality of plain data does not depend on the side. -/
theorem Plain.jsonEqual_symm {v w : Value} (hv : v.Plain) (hw : w.Plain) (h : v.jsonEqual w) :
    w.jsonEqual v := by
  induction hv generalizing w with
  | null => cases jsonEqual_null_iff.1 h; exact h
  | bool b => cases jsonEqual_bool_iff.1 h; exact h
  | text s => cases jsonEqual_text_iff.1 h; exact h
  | int n =>
    obtain ⟨hb, r, hr, hs⟩ := ((IsNumber.int n).jsonEqual_iff w).1 h
    exact ((hw.isNumber hb hr).jsonEqual_iff _).2 ⟨fun _ => nofun, _, rfl, sameNumber_symm hs⟩
  | float x =>
    obtain ⟨hb, r, hr, hs⟩ := ((IsNumber.float x).jsonEqual_iff w).1 h
    exact ((hw.isNumber hb hr).jsonEqual_iff _).2 ⟨fun _ => nofun, _, rfl, sameNumber_symm hs⟩
  | @list xs _ ih =>
    obtain ⟨ys, hys, hall⟩ := jsonEqual_list_iff.1 h
    cases hw with
    | @list _ hyp =>
      cases hys
      exact jsonEqual_list_iff.2 ⟨xs, rfl, forall₂_swap hall fun x hx y hy => ih x hx (hyp y hy)⟩
    | _ => cases hys
  | @object fs distinct _ ih =>
    obtain ⟨es, hes, hlen, -⟩ := jsonEqual_object_iff.1 h
    cases hw with
    | @object gs distinct' hgs =>
      refine jsonEqual_objects_iff.2 ⟨(jsonEqual_objects_iff.1 h).1.symm, fun g hg => ?_⟩
      obtain ⟨v, hv, hvg⟩ := lookup_of_jsonEqual_objects distinct distinct' h hg
      exact ⟨v, hv, ih _ (mem_of_lookup hv) (hgs g hg) hvg⟩
    | _ => cases hes

/-- What a document is equal to, a document equal to it is equal to. -/
theorem Plain.jsonEqual_right {v w e : Value} (hv : v.Plain) (hw : w.Plain) (h : v.jsonEqual w)
    (he : v.jsonEqual e) : w.jsonEqual e := by
  induction hv generalizing w e with
  | null => cases jsonEqual_null_iff.1 h; exact he
  | bool b => cases jsonEqual_bool_iff.1 h; exact he
  | text s => cases jsonEqual_text_iff.1 h; exact he
  | int n =>
    obtain ⟨hb, r, hr, hs⟩ := ((IsNumber.int n).jsonEqual_iff w).1 h
    obtain ⟨hb', r', hr', hs'⟩ := ((IsNumber.int n).jsonEqual_iff e).1 he
    exact ((hw.isNumber hb hr).jsonEqual_iff e).2 ⟨hb', r', hr', sameNumber_right hs hs'⟩
  | float x =>
    obtain ⟨hb, r, hr, hs⟩ := ((IsNumber.float x).jsonEqual_iff w).1 h
    obtain ⟨hb', r', hr', hs'⟩ := ((IsNumber.float x).jsonEqual_iff e).1 he
    exact ((hw.isNumber hb hr).jsonEqual_iff e).2 ⟨hb', r', hr', sameNumber_right hs hs'⟩
  | list _ ih =>
    obtain ⟨ys, hys, hall⟩ := jsonEqual_list_iff.1 h
    obtain ⟨zs, hzs, hall'⟩ := jsonEqual_list_iff.1 he
    cases hw with
    | list hyp =>
      cases hys
      exact jsonEqual_list_iff.2 ⟨zs, hzs, forall₂_right hall hall' fun x hx y hy z => ih x hx (hyp y hy)⟩
    | _ => cases hys
  | object distinct _ ih =>
    obtain ⟨_, hes, -⟩ := jsonEqual_object_iff.1 h
    obtain ⟨es', hes', hlen', hall'⟩ := jsonEqual_object_iff.1 he
    cases hw with
    | object distinct' hgs =>
      have hlen := (jsonEqual_objects_iff.1 h).1
      refine jsonEqual_object_iff.2 ⟨es', hes', hlen.symm.trans hlen', fun g hg => ?_⟩
      obtain ⟨v, hv, hvg⟩ := lookup_of_jsonEqual_objects distinct distinct' h hg
      obtain ⟨x, hx, hvx⟩ := hall' (g.1, v) (mem_of_lookup hv)
      exact ⟨x, hx, ih _ (mem_of_lookup hv) (hgs g hg) hvg hvx⟩
    | _ => cases hes

/-- Equal documents are equal to the same values. -/
theorem Plain.jsonEqual_congr {v w : Value} (hv : v.Plain) (hw : w.Plain) (h : v.jsonEqual w) (e : Value) :
    v.jsonEqual e = w.jsonEqual e :=
  Bool.eq_iff_iff.2 ⟨hv.jsonEqual_right hw h, hw.jsonEqual_right hv (hv.jsonEqual_symm hw h)⟩

theorem getElem?_rel {α β : Type} {R : α → β → Prop} {xs : List α} {ys : List β} (h : List.Forall₂ R xs ys)
    (n : Nat) : Option.Rel R xs[n]? ys[n]? := by
  induction h generalizing n with
  | nil => exact .none
  | cons hxy _ ih => cases n with
    | zero => exact .some hxy
    | succ n => exact ih n

/-- The fields of equal objects under one name are equal, or missing in both. -/
theorem lookup_rel_of_jsonEqual {fs gs : List (String × Value)} (distinct : (fs.map (·.1)).Nodup)
    (distinct' : (gs.map (·.1)).Nodup) (h : (object fs).jsonEqual (object gs)) (name : String) :
    Option.Rel (fun v w => v.jsonEqual w) (fs.lookup name) (gs.lookup name) := by
  cases hf : fs.lookup name with
  | some v =>
    obtain ⟨w, hw, hvw⟩ := (jsonEqual_objects_iff.1 h).2 (name, v) (mem_of_lookup hf)
    rw [hw]
    exact .some hvw
  | none => cases hg : gs.lookup name with
    | none => exact .none
    | some w =>
      obtain ⟨v, hv, -⟩ := lookup_of_jsonEqual_objects distinct distinct' h (mem_of_lookup hg)
      cases hf.symm.trans hv

end Value

end Lockstep
