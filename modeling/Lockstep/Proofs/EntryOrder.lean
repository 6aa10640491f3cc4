import Mathlib.Data.List.Zip
import Lockstep.Json.Render
import Lockstep.Proofs.DocumentEquality

/-! Documents that differ only in the order of object entries. Lookups lead to parts that differ in the same
way, equality does not tell the documents apart, and they have one and the same canonical text. -/

namespace Lockstep

namespace Value

/-- The same value up to the order of the entries of objects, at any depth. -/
inductive Reordered : Value → Value → Prop where
  | refl (v : Value) : Reordered v v
  | list {xs ys : List Value} (length_eq : xs.length = ys.length)
      (h : ∀ x y, (x, y) ∈ xs.zip ys → Reordered x y) : Reordered (.list xs) (.list ys)
  | object {fs gs : List (String × Value)} (names : (fs.map (·.1)).Perm (gs.map (·.1)))
      (h : ∀ name v w, (name, v) ∈ fs → (name, w) ∈ gs → Reordered v w) : Reordered (.object fs) (.object gs)

theorem forall₂_of_zip {α β : Type} {R : α → β → Prop} {xs : List α} {ys : List β}
    (length_eq : xs.length = ys.length) (h : ∀ x y, (x, y) ∈ xs.zip ys → R x y) : List.Forall₂ R xs ys :=
  List.forall₂_iff_zip.2 ⟨length_eq, fun hxy => h _ _ hxy⟩

theorem Reordered.symm {v w : Value} (h : Reordered v w) : Reordered w v := by
  induction h with
  | refl v => exact .refl v
  | list length_eq _ ih =>
    refine .list length_eq.symm fun y x hyx => ih x y ?_
    rw [← List.zip_swap]
    exact List.mem_map.2 ⟨(y, x), hyx, rfl⟩
  | object names _ ih => exact .object names.symm fun name w v hw hv => ih name v w hv hw

section Fields
variable {α β : Type} {fs : List (String × α)} {gs : List (String × β)} {name : String}

theorem exists_mem_of_names (names : (fs.map (·.1)).Perm (gs.map (·.1))) {v : α} (hv : (name, v) ∈ fs) :
    ∃ w, (name, w) ∈ gs := by
  obtain ⟨g, hg, rfl⟩ := List.mem_map.1 (names.mem_iff.1 (List.mem_map_of_mem hv))
  exact ⟨g.2, hg⟩

private theorem lookup_rel_of_names {R : α → β → Prop} (names : (fs.map (·.1)).Perm (gs.map (·.1)))
    (h : ∀ v w, (name, v) ∈ fs → (name, w) ∈ gs → R v w) :
    Option.Rel R (fs.lookup name) (gs.lookup name) := by
  have hsome : (fs.lookup name).isSome = (gs.lookup name).isSome :=
    Bool.eq_iff_iff.2 (isSome_lookup_iff.trans (names.mem_iff.trans isSome_lookup_iff.symm))
  cases hf : fs.lookup name <;> cases hg : gs.lookup name <;> rw [hf, hg] at hsome
  · exact .none
  · cases hsome
  · cases hsome
  · exact .some (h _ _ (mem_of_lookup hf) (mem_of_lookup hg))

end Fields

theorem Reordered.trans {u v w : Value} (h : Reordered u v) (h' : Reordered v w) : Reordered u w := by
  induction h generalizing w with
  | refl => exact h'
  | @list xs ys length_eq h ih =>
    cases h' with
    | refl => exact .list length_eq h
    | @list _ zs length_eq' h' =>
      have hback : List.Forall₂ (fun y x => ∀ w, Reordered y w → Reordered x w) ys xs :=
        (forall₂_of_zip length_eq fun x y hxy _ => ih x y hxy).flip
      have hxz : List.Forall₂ Reordered xs zs :=
        forall₂_right hback (forall₂_of_zip length_eq' h') fun _ _ _ _ z hyx => hyx z
      exact .list hxz.length_eq fun x z hz => List.forall₂_zip hxz hz
  | @object fs gs names h ih =>
    generalize hv : Value.object gs = v at h'
    cases h' with
    | refl =>
      rw [← hv]
      exact .object names h
    | list => cases hv
    | object names' h' =>
      obtain rfl := object_injective hv
      refine .object (names.trans names') fun name u w hu hw => ?_
      obtain ⟨v', hv'⟩ := exists_mem_of_names names hu
      exact ih name u v' hu hv' (h' name v' w hv' hw)

/-- A segment leads to parts that differ only in the order of entries, or to none in both. -/
theorem Reordered.lookup_rel {v w : Value} (h : Reordered v w) (segment : Segment) :
    Option.Rel Reordered (v.lookup segment) (w.lookup segment) := by
  cases h with
  | refl => cases v.lookup segment with
    | none => exact .none
    | some part => exact .some (.refl part)
  | list length_eq h => cases segment with
    | key name => exact .none
    | index n => exact getElem?_rel (forall₂_of_zip length_eq h) n
  | object names h => cases segment with
    | key name =>
      rw [lookup, lookup, lookupKey_object, lookupKey_object]
      exact lookup_rel_of_names names (h name)
    | index n => exact .none

/-- Equality with any value does not tell the documents apart. -/
theorem Reordered.jsonEqual_of {v w e : Value} (h : Reordered v w) (he : v.jsonEqual e) : w.jsonEqual e := by
  induction h generalizing e with
  | refl => exact he
  | @list xs ys length_eq h ih =>
    obtain ⟨zs, hzs, hall⟩ := jsonEqual_list_iff.1 he
    have hih : List.Forall₂ (fun x y => ∀ e, x.jsonEqual e → y.jsonEqual e) xs ys :=
      forall₂_of_zip length_eq fun x y hxy _ => ih x y hxy
    exact jsonEqual_list_iff.2 ⟨zs, hzs, forall₂_right hih hall fun _ _ _ _ z hxy => hxy z⟩
  | @object fs gs names h ih =>
    obtain ⟨es, hes, hlen, hall⟩ := jsonEqual_object_iff.1 he
    have hlen' : gs.length = fs.length := by simpa using names.length_eq.symm
    refine jsonEqual_object_iff.2 ⟨es, hes, hlen'.trans hlen, fun g hg => ?_⟩
    obtain ⟨v, hv⟩ := exists_mem_of_names names.symm hg
    obtain ⟨x, hx, hvx⟩ := hall _ hv
    exact ⟨x, hx, ih g.1 v g.2 hv hg hvx⟩

theorem Reordered.jsonEqual_congr {v w : Value} (h : Reordered v w) (e : Value) : v.jsonEqual e = w.jsonEqual e :=
  Bool.eq_iff_iff.2 ⟨h.jsonEqual_of, h.symm.jsonEqual_of⟩

theorem Reordered.plain {v w : Value} (h : Reordered v w) (hv : v.Plain) : w.Plain := by
  induction h with
  | refl => exact hv
  | list length_eq h ih =>
    cases hv with
    | list hxs =>
      refine .list fun y hy => ?_
      obtain ⟨x, hx, hxy⟩ := exists_mem_of_forall₂ (forall₂_of_zip length_eq ih) y hy
      exact hxy (hxs x hx)
  | object names h ih =>
    obtain ⟨distinct, hfs⟩ := plain_object_iff.1 hv
    refine .object (names.nodup_iff.1 distinct) fun g hg => ?_
    obtain ⟨v, hv⟩ := exists_mem_of_names names.symm hg
    exact ih g.1 v g.2 hv hg (hfs _ hv)

end Value

end Lockstep
