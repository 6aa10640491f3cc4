import Lockstep.Encoding
import Lockstep.Proofs.DocumentEquality

/-! What the encoder makes of a host value is plain data. It is made part by part: the parts of a value are
encoded one level further down, and what is encoded there is encoded in the same way on its own. -/

namespace Lockstep

/-- In a monad of results that may fail to come about, a list of results comes about exactly if each of them does. -/
theorem mapM_eq_pure_iff {m : Type → Type} [Monad m] [LawfulMonad m]
    (pure_inj : ∀ {γ : Type} {a b : γ}, (pure a : m γ) = pure b → a = b)
    (bind_iff : ∀ {γ δ : Type} {x : m γ} {g : γ → m δ} {b : δ}, x >>= g = pure b ↔ ∃ a, x = pure a ∧ g a = pure b)
    {α β : Type} {f : α → m β} {xs : List α} {ys : List β} :
    xs.mapM f = pure ys ↔ List.Forall₂ (fun x y => f x = pure y) xs ys := by
  induction xs generalizing ys with
  | nil => exact ⟨fun h => pure_inj h ▸ .nil, fun h => by cases h; rfl⟩
  | cons x xs ih =>
    simp only [List.mapM_cons, bind_iff, ih, List.forall₂_cons_left_iff]
    constructor
    · rintro ⟨y, hy, zs, hzs, h⟩
      exact ⟨y, zs, hy, hzs, (pure_inj h).symm⟩
    · rintro ⟨y, zs, hy, hzs, rfl⟩
      exact ⟨y, hy, zs, hzs, rfl⟩

section Except
variable {α β : Type}

theorem bind_eq_ok_iff {x : Except Fault α} {f : α → Except Fault β} {b : β} :
    (x >>= f) = .ok b ↔ ∃ a, x = .ok a ∧ f a = .ok b := by
  cases x <;> simp [Bind.bind, Except.bind]

theorem map_eq_ok_iff {x : Except Fault α} {f : α → β} {b : β} : x.map f = .ok b ↔ ∃ a, x = .ok a ∧ f a = b := by
  cases x <;> simp [Except.map]

theorem mapM_eq_ok_iff {f : α → Except Fault β} {xs : List α} {ys : List β} :
    xs.mapM f = .ok ys ↔ List.Forall₂ (fun x y => f x = .ok y) xs ys :=
  mapM_eq_pure_iff Except.ok.inj bind_eq_ok_iff

theorem atLevel_eq_ok_iff {level : Nat} {result : Except Fault α} {a : α} :
    atLevel level result = .ok a ↔ level ≤ deepestLevel ∧ result = .ok a := by
  rw [atLevel]
  split
  · simp; omega
  · simp; omega

end Except

/-- The fields of a record that are encoded, under the names they are encoded under. -/
def RecordClass.encoded (cls : RecordClass) (fields : List (String × Value)) : List (String × Value) :=
  fields.filterMap fun f => (cls.encodedName? f.1).map fun name => (name, f.2)

private theorem RecordClass.exists_of_mem_encoded (cls : RecordClass) {fields : List (String × Value)}
    {e : String × Value} (h : e ∈ cls.encoded fields) : ∃ f ∈ fields, f.2 = e.2 := by
  obtain ⟨f, hf, he⟩ := List.mem_filterMap.1 h
  obtain ⟨name, -, rfl⟩ := Option.map_eq_some_iff.1 he
  exact ⟨f, hf, rfl⟩

namespace Value

/-- Induction over the values in a value. The keys of dictionaries are not among them. -/
@[elab_as_elim]
theorem induct {motive : Value → Prop} (null : motive .null) (bool : ∀ b, motive (.bool b))
    (int : ∀ n, motive (.int n)) (float : ∀ x, motive (.float x)) (text : ∀ s, motive (.text s))
    (bytes : ∀ writable data, motive (.bytes writable data)) (atom : ∀ a, motive (.atom a))
    (sequence : ∀ kind items, (∀ v ∈ items, motive v) → motive (.sequence kind items))
    (set : ∀ frozen items, (∀ v ∈ items, motive v) → motive (.set frozen items))
    (dict : ∀ entries, (∀ e ∈ entries, motive e.2) → motive (.dict entries))
    (member : ∀ cls name value, motive value → motive (.member cls name value))
    (record : ∀ cls fields, (∀ f ∈ fields, motive f.2) → motive (.record cls fields))
    (foreign : ∀ object, motive (.foreign object)) (knot : ∀ k, motive (.knot k)) (v : Value) : motive v :=
  @Value.rec motive (fun items => ∀ v ∈ items, motive v) (fun entries => ∀ e ∈ entries, motive e.2)
    (fun fields => ∀ f ∈ fields, motive f.2) (fun e => motive e.2) (fun f => motive f.2)
    null bool int float text bytes atom sequence set dict member record foreign knot
    (List.forall_mem_nil _) (fun _ _ hv hvs => List.forall_mem_cons.2 ⟨hv, hvs⟩)
    (List.forall_mem_nil _) (fun _ _ he hes => List.forall_mem_cons.2 ⟨he, hes⟩)
    (List.forall_mem_nil _) (fun _ _ hf hfs => List.forall_mem_cons.2 ⟨hf, hfs⟩)
    (fun _ _ _ hv => hv) (fun _ _ hv => hv) v

/-- The values that a value is made of. The keys of dictionaries are not among them. -/
inductive Part : Value → Value → Prop where
  | item {kind : SequenceKind} {items : List Value} {v : Value} (h : v ∈ items) : Part (.sequence kind items) v
  | element {frozen : Bool} {items : List Value} {v : Value} (h : v ∈ items) : Part (.set frozen items) v
  | entry {entries : List (Value × Value)} {e : Value × Value} (h : e ∈ entries) : Part (.dict entries) e.2
  | member (cls name : String) (v : Value) : Part (.member cls name v) v
  | field {cls : RecordClass} {fields : List (String × Value)} {f : String × Value} (h : f ∈ fields) :
      Part (.record cls fields) f.2

/-- A value holds another: itself, one of its parts, or what one of these holds. -/
abbrev Holds : Value → Value → Prop := Relation.ReflTransGen Part

@[elab_as_elim]
theorem induct_part {motive : Value → Prop} (step : ∀ v, (∀ w, v.Part w → motive w) → motive v) (v : Value) :
    motive v := by
  induction v using induct with
  | sequence kind items ih => exact step _ fun w hw => by cases hw with | item h => exact ih w h
  | set frozen items ih => exact step _ fun w hw => by cases hw with | element h => exact ih w h
  | dict entries ih => exact step _ fun w hw => by cases hw with | entry h => exact ih _ h
  | member cls name value ih => exact step _ fun w hw => by cases hw; exact ih
  | record cls fields ih => exact step _ fun w hw => by cases hw with | field h => exact ih _ h
  | _ => exact step _ nofun

/-- Plain data without parts. -/
inductive IsScalar : Value → Prop where
  | null : IsScalar .null
  | bool (b : Bool) : IsScalar (.bool b)
  | int (n : Int) : IsScalar (.int n)
  | float (x : Binary64) : IsScalar (.float x)
  | text (s : String) : IsScalar (.text s)

theorem IsScalar.plain {d : Value} (h : d.IsScalar) : d.Plain := by
  cases h with
  | null => exact .null
  | bool b => exact .bool b
  | int n => exact .int n
  | float x => exact .float x
  | text s => exact .text s

/-- A scalar holds nothing but itself. -/
theorem IsScalar.holds_iff {v w : Value} (h : v.IsScalar) : v.Holds w ↔ v = w := by
  constructor
  · intro hh
    rcases Relation.ReflTransGen.cases_head hh with rfl | ⟨part, hpart, -⟩
    · rfl
    · cases h <;> cases hpart
  · rintro rfl
    exact .refl

section Holding
variable {w : Value} (hw : w.IsScalar)
include hw

theorem holds_sequence_iff {kind : SequenceKind} {items : List Value} :
    (sequence kind items).Holds w ↔ ∃ x ∈ items, x.Holds w := by
  constructor
  · intro hh
    rcases Relation.ReflTransGen.cases_head hh with rfl | ⟨x, hx, hrest⟩
    · cases hw
    · cases hx with
      | item hmem => exact ⟨x, hmem, hrest⟩
  · rintro ⟨x, hx, hrest⟩
    exact .head (.item hx) hrest

theorem holds_object_iff {fields : List (String × Value)} :
    (object fields).Holds w ↔ ∃ f ∈ fields, f.2.Holds w := by
  constructor
  · intro hh
    rw [object_eq_dict] at hh
    rcases Relation.ReflTransGen.cases_head hh with rfl | ⟨x, hx, hrest⟩
    · cases hw
    · cases hx with
      | entry hmem =>
        obtain ⟨f, hf, rfl⟩ := List.mem_map.1 hmem
        exact ⟨f, hf, hrest⟩
  · rintro ⟨f, hf, hrest⟩
    have hmem : (Value.text f.1, f.2) ∈ fields.map fun f => (Value.text f.1, f.2) := List.mem_map_of_mem hf
    exact .head (.entry hmem) hrest

end Holding

private theorem sameNumber_self {q : Quantity} (h : q ≠ .undefined) : sameNumber (q, .finite 0) (q, .finite 0) := by
  cases q <;> simp_all [sameNumber, Quantity.equal]

/-- Every scalar is equal to itself but the number that is undefined. -/
theorem IsScalar.jsonEqual_self {d : Value} (h : d.IsScalar) (hnan : d ≠ .float .nan) : d.jsonEqual d := by
  cases h with
  | null => exact jsonEqual_null_iff.2 rfl
  | bool b => exact jsonEqual_bool_iff.2 rfl
  | int n => exact ((IsNumber.int n).jsonEqual_iff _).2 ⟨nofun, _, rfl, sameNumber_self nofun⟩
  | float x =>
    refine ((IsNumber.float x).jsonEqual_iff _).2 ⟨nofun, _, rfl, sameNumber_self fun hx => hnan ?_⟩
    cases x <;> cases hx
    rfl
  | text s => exact jsonEqual_text_iff.2 rfl

section Encoding
variable {host host' : String} {level level' : Nat} {v d : Value}

private theorem keyTexts_eq_mapM (xs : List Value) : keyTexts host xs = xs.mapM (keyText host) := by
  induction xs with
  | nil => rfl
  | cons x xs ih => rw [keyTexts, List.mapM_cons, ih]

private theorem encodeItems_eq_mapM (xs : List Value) : encodeItems host level xs = xs.mapM (encodeAt host level) := by
  induction xs with
  | nil => rfl
  | cons x xs ih => rw [encodeItems, List.mapM_cons, ih]

theorem encodeItems_eq_ok_iff {xs ds : List Value} :
    encodeItems host level xs = .ok ds ↔ List.Forall₂ (fun x d => encodeAt host level x = .ok d) xs ds := by
  rw [encodeItems_eq_mapM, mapM_eq_ok_iff]

/-- The entries of a dictionary become fields in order, whose names are the texts of the keys. -/
theorem encodeEntries_eq_ok_iff {es rs : List (Value × Value)} :
    encodeEntries host level es = .ok rs ↔ ∃ fs : List (String × Value),
      List.Forall₂ (fun e f => keyText host e.1 = .ok f.1 ∧ encodeAt host level e.2 = .ok f.2) es fs ∧
      rs = fs.map fun f => (.text f.1, f.2) := by
  induction es generalizing rs with
  | nil => simp [encodeEntries, eq_comm]
  | cons e es ih =>
    simp only [encodeEntries, bind_eq_ok_iff, ih, List.forall₂_cons_left_iff, pure, Except.pure, Except.ok.injEq]
    constructor
    · rintro ⟨name, hname, d, hd, _, ⟨fs, hfs, rfl⟩, rfl⟩
      exact ⟨(name, d) :: fs, ⟨_, _, ⟨hname, hd⟩, hfs, rfl⟩, rfl⟩
    · rintro ⟨_, ⟨f, fs, ⟨hname, hd⟩, hfs, rfl⟩, rfl⟩
      exact ⟨f.1, hname, f.2, hd, _, ⟨fs, hfs, rfl⟩, rfl⟩

/-- The encoded fields of a record become fields in order. -/
theorem encodeFields_eq_ok_iff {cls : RecordClass} {fields : List (String × Value)} {rs : List (Value × Value)} :
    encodeFields host level cls fields = .ok rs ↔ ∃ fs : List (String × Value),
      List.Forall₂ (fun e f => e.1 = f.1 ∧ encodeAt host level e.2 = .ok f.2) (cls.encoded fields) fs ∧
      rs = fs.map fun f => (.text f.1, f.2) := by
  induction fields generalizing rs with
  | nil => simp [encodeFields, RecordClass.encoded, eq_comm]
  | cons f fields ih =>
    cases hname : cls.encodedName? f.1 with
    | none => simp only [encodeFields, hname, ih, RecordClass.encoded, List.filterMap_cons, Option.map_none]
    | some name =>
      have hcons : cls.encoded (f :: fields) = (name, f.2) :: cls.encoded fields := by
        rw [RecordClass.encoded, List.filterMap_cons, hname]
        rfl
      simp only [encodeFields, hname, bind_eq_ok_iff, ih, hcons, List.forall₂_cons_left_iff, pure, Except.pure,
        Except.ok.injEq]
      constructor
      · rintro ⟨d, hd, _, ⟨fs, hfs, rfl⟩, rfl⟩
        exact ⟨(name, d) :: fs, ⟨_, _, ⟨rfl, hd⟩, hfs, rfl⟩, rfl⟩
      · rintro ⟨_, ⟨g, fs, ⟨hg, hd⟩, hfs, rfl⟩, rfl⟩
        exact ⟨g.2, hd, _, ⟨fs, hfs, rfl⟩, by rw [hg]; rfl⟩

/-- A sequence that is encoded is no range, and becomes the list of its encoded items. -/
theorem encodeAt_sequence_eq_ok_iff {kind : SequenceKind} {items : List Value} :
    encodeAt host level (.sequence kind items) = .ok d ↔ level ≤ deepestLevel ∧ kind ≠ .range ∧
      ∃ ds, List.Forall₂ (fun x d => encodeAt host (level + 1) x = .ok d) items ds ∧ d = .list ds := by
  by_cases hkind : kind = .range
  · subst hkind
    simp [encodeAt, atLevel_eq_ok_iff]
  · have hencode : encodeAt host level (.sequence kind items) =
        atLevel level ((encodeItems host (level + 1) items).map .list) := by
      cases kind with
      | range => exact absurd rfl hkind
      | _ => rfl
    rw [hencode, and_iff_right hkind]
    simp only [atLevel_eq_ok_iff, map_eq_ok_iff, encodeItems_eq_ok_iff, eq_comm (b := d)]

theorem encodeAt_set_eq_ok_iff {frozen : Bool} {items : List Value} :
    encodeAt host level (.set frozen items) = .ok d ↔ level ≤ deepestLevel ∧
      ∃ ds, List.Forall₂ (fun x d => encodeAt host (level + 1) x = .ok d) items ds ∧ d = .list ds := by
  simp only [encodeAt, atLevel_eq_ok_iff, map_eq_ok_iff, encodeItems_eq_ok_iff, eq_comm (b := d)]

theorem exists_dictOf_iff {P : List (String × Value) → Prop} :
    (∃ rs, (∃ fs : List (String × Value), P fs ∧ rs = fs.map fun f => (.text f.1, f.2)) ∧ dictOf rs = d) ↔
      ∃ fs : List (String × Value), P fs ∧ d = dictOf (fs.map fun f => (.text f.1, f.2)) := by
  constructor
  · rintro ⟨_, ⟨fs, hfs, rfl⟩, rfl⟩
    exact ⟨fs, hfs, rfl⟩
  · rintro ⟨fs, hfs, rfl⟩
    exact ⟨_, ⟨fs, hfs, rfl⟩, rfl⟩

theorem encodeAt_dict_eq_ok_iff {entries : List (Value × Value)} :
    encodeAt host level (.dict entries) = .ok d ↔ level ≤ deepestLevel ∧
      ∃ fs : List (String × Value),
        List.Forall₂ (fun e f => keyText host e.1 = .ok f.1 ∧ encodeAt host (level + 1) e.2 = .ok f.2)
          entries fs ∧
        d = dictOf (fs.map fun f => (.text f.1, f.2)) := by
  simp only [encodeAt, atLevel_eq_ok_iff, map_eq_ok_iff, encodeEntries_eq_ok_iff, exists_dictOf_iff]

theorem encodeAt_record_eq_ok_iff {cls : RecordClass} {fields : List (String × Value)} :
    encodeAt host level (.record cls fields) = .ok d ↔ level ≤ deepestLevel ∧
      ∃ fs : List (String × Value),
        List.Forall₂ (fun e f => e.1 = f.1 ∧ encodeAt host (level + 1) e.2 = .ok f.2) (cls.encoded fields) fs ∧
        d = dictOf (fs.map fun f => (.text f.1, f.2)) := by
  simp only [encodeAt, atLevel_eq_ok_iff, map_eq_ok_iff, encodeFields_eq_ok_iff, exists_dictOf_iff]

/-- The text of a key does not depend on the value that it is encoded with. -/
theorem keyText_host {s : String} (h : keyText host v = .ok s) : keyText host' v = .ok s := by
  induction v using induct generalizing s with
  | sequence kind items ih =>
    have htexts (ss : List String) (hss : keyTexts host items = .ok ss) : keyTexts host' items = .ok ss := by
      rw [keyTexts_eq_mapM, mapM_eq_ok_iff] at hss ⊢
      exact forall₂_imp_of_mem hss fun x hx s hs => ih x hx hs
    cases kind with
    | tuple =>
      obtain ⟨ss, hss, rfl⟩ := map_eq_ok_iff.1 h
      exact map_eq_ok_iff.2 ⟨ss, htexts ss hss, rfl⟩
    | named cls fields =>
      obtain ⟨ss, hss, rfl⟩ := map_eq_ok_iff.1 h
      exact map_eq_ok_iff.2 ⟨ss, htexts ss hss, rfl⟩
    | _ => cases h
  | member cls name value ih => exact ih h
  | foreign object => cases h
  | _ => exact h

/-- What is encoded at some level of a value is encoded in the same way further up, also of another value. -/
theorem encodeAt_of_le (h : encodeAt host level v = .ok d) (hle : level' ≤ level) :
    encodeAt host' level' v = .ok d := by
  -- Both levels are general: the parts are one level further down on either side.
  induction v using induct generalizing level level' d with
  | sequence kind items ih =>
    obtain ⟨hlevel, hkind, ds, hds, rfl⟩ := encodeAt_sequence_eq_ok_iff.1 h
    refine encodeAt_sequence_eq_ok_iff.2 ⟨Nat.le_trans hle hlevel, hkind, ds, ?_, rfl⟩
    exact forall₂_imp_of_mem hds fun x hx d hd => ih x hx hd (Nat.succ_le_succ hle)
  | set frozen items ih =>
    obtain ⟨hlevel, ds, hds, rfl⟩ := encodeAt_set_eq_ok_iff.1 h
    refine encodeAt_set_eq_ok_iff.2 ⟨Nat.le_trans hle hlevel, ds, ?_, rfl⟩
    exact forall₂_imp_of_mem hds fun x hx d hd => ih x hx hd (Nat.succ_le_succ hle)
  | dict entries ih =>
    obtain ⟨hlevel, fs, hfs, rfl⟩ := encodeAt_dict_eq_ok_iff.1 h
    refine encodeAt_dict_eq_ok_iff.2 ⟨Nat.le_trans hle hlevel, fs, ?_, rfl⟩
    exact forall₂_imp_of_mem hfs fun e he f hf => ⟨keyText_host hf.1, ih e he hf.2 (Nat.succ_le_succ hle)⟩
  | record cls fields ih =>
    obtain ⟨hlevel, fs, hfs, rfl⟩ := encodeAt_record_eq_ok_iff.1 h
    refine encodeAt_record_eq_ok_iff.2 ⟨Nat.le_trans hle hlevel, fs, ?_, rfl⟩
    refine forall₂_imp_of_mem hfs fun e he f hf => ⟨hf.1, ?_⟩
    obtain ⟨g, hg, hge⟩ := cls.exists_of_mem_encoded he
    have hd : encodeAt host (level + 1) g.2 = .ok f.2 := hge ▸ hf.2
    exact hge ▸ ih g hg hd (Nat.succ_le_succ hle)
  | member cls name value ih =>
    obtain ⟨hlevel, hvalue⟩ := atLevel_eq_ok_iff.1 h
    exact atLevel_eq_ok_iff.2 ⟨Nat.le_trans hle hlevel, ih hvalue (Nat.succ_le_succ hle)⟩
  | foreign object => cases (atLevel_eq_ok_iff.1 h).2
  | knot k => cases h
  | _ =>
    obtain ⟨hlevel, hd⟩ := atLevel_eq_ok_iff.1 h
    exact atLevel_eq_ok_iff.2 ⟨Nat.le_trans hle hlevel, hd⟩

/-- All that an encoding can be: a scalar, which is a floating-point number only if the value is the same, a list
or an object of encoded parts, or the encoding of a part. -/
theorem encodeAt_cases (h : encodeAt host level v = .ok d) :
    (d.IsScalar ∧ ∀ x, d = .float x → v = .float x) ∨
    (∃ ds, d = .list ds ∧ ∀ e ∈ ds, ∃ w, v.Part w ∧ encodeAt host (level + 1) w = .ok e) ∨
    (∃ fs : List (String × Value), d = dictOf (fs.map fun f => (.text f.1, f.2)) ∧
      ∀ f ∈ fs, ∃ w, v.Part w ∧ encodeAt host (level + 1) w = .ok f.2) ∨
    ∃ w, v.Part w ∧ encodeAt host (level + 1) w = .ok d := by
  cases v with
  | null => cases (atLevel_eq_ok_iff.1 h).2; exact .inl ⟨.null, nofun⟩
  | bool b => cases (atLevel_eq_ok_iff.1 h).2; exact .inl ⟨.bool b, nofun⟩
  | int n => cases (atLevel_eq_ok_iff.1 h).2; exact .inl ⟨.int n, nofun⟩
  | float x => cases (atLevel_eq_ok_iff.1 h).2; exact .inl ⟨.float x, fun _ => id⟩
  | text s => cases (atLevel_eq_ok_iff.1 h).2; exact .inl ⟨.text s, nofun⟩
  | bytes writable data =>
    obtain ⟨s, -, rfl⟩ := map_eq_ok_iff.1 (atLevel_eq_ok_iff.1 h).2
    exact .inl ⟨.text s, nofun⟩
  | atom a =>
    obtain ⟨text, -, rfl⟩ := map_eq_ok_iff.1 (atLevel_eq_ok_iff.1 h).2
    exact .inl ⟨.text text, nofun⟩
  | sequence kind items =>
    obtain ⟨-, -, ds, hds, rfl⟩ := encodeAt_sequence_eq_ok_iff.1 h
    refine .inr (.inl ⟨ds, rfl, fun e he => ?_⟩)
    obtain ⟨w, hw, hwe⟩ := exists_mem_of_forall₂ hds e he
    exact ⟨w, .item hw, hwe⟩
  | set frozen items =>
    obtain ⟨-, ds, hds, rfl⟩ := encodeAt_set_eq_ok_iff.1 h
    refine .inr (.inl ⟨ds, rfl, fun e he => ?_⟩)
    obtain ⟨w, hw, hwe⟩ := exists_mem_of_forall₂ hds e he
    exact ⟨w, .element hw, hwe⟩
  | dict entries =>
    obtain ⟨-, fs, hfs, rfl⟩ := encodeAt_dict_eq_ok_iff.1 h
    refine .inr (.inr (.inl ⟨fs, rfl, fun f hf => ?_⟩))
    obtain ⟨e, he, -, hef⟩ := exists_mem_of_forall₂ hfs f hf
    exact ⟨e.2, .entry he, hef⟩
  | record cls fields =>
    obtain ⟨-, fs, hfs, rfl⟩ := encodeAt_record_eq_ok_iff.1 h
    refine .inr (.inr (.inl ⟨fs, rfl, fun f hf => ?_⟩))
    obtain ⟨e, he, -, hef⟩ := exists_mem_of_forall₂ hfs f hf
    obtain ⟨g, hg, hge⟩ := cls.exists_of_mem_encoded he
    exact ⟨g.2, .field hg, hge ▸ hef⟩
  | member cls name value => exact .inr (.inr (.inr ⟨value, .member cls name value, (atLevel_eq_ok_iff.1 h).2⟩))
  | foreign object => cases (atLevel_eq_ok_iff.1 h).2
  | knot k => cases h

/-- The object that some fields make has none but these fields. -/
theorem exists_dictOf_subset (fs : List (String × Value)) :
    ∃ gs : List (String × Value), dictOf (fs.map fun f => (.text f.1, f.2)) = object gs ∧
      (gs.map (·.1)).Nodup ∧ gs ⊆ fs := by
  obtain ⟨gs, hgs, hnodup, hlookup⟩ := exists_dictOf fs
  refine ⟨gs, hgs, hnodup, fun g hg => ?_⟩
  have hmem := (lookup_eq_some_iff_mem hnodup).2 hg
  rw [hlookup] at hmem
  exact List.mem_reverse.1 (mem_of_lookup hmem)

/-- Every encoding is plain data. -/
theorem encodeAt_plain (h : encodeAt host level v = .ok d) : d.Plain := by
  induction v using induct_part generalizing level d with
  | step v ih =>
    rcases encodeAt_cases h with ⟨hd, -⟩ | ⟨ds, rfl, hds⟩ | ⟨fs, rfl, hfs⟩ | ⟨w, hw, hd⟩
    · exact hd.plain
    · refine .list fun e he => ?_
      obtain ⟨w, hw, hwe⟩ := hds e he
      exact ih w hw hwe
    · obtain ⟨gs, hgs, hnodup, hsub⟩ := exists_dictOf_subset fs
      rw [hgs]
      refine .object hnodup fun g hg => ?_
      obtain ⟨w, hw, hwg⟩ := hfs g (hsub hg)
      exact ih w hw hwg
    · exact ih w hw hd

/-- Every encoding of a value without undefined numbers is equal to itself. -/
theorem encodeAt_jsonEqual_self (h : encodeAt host level v = .ok d) (hnan : ¬ v.Holds (.float .nan)) :
    d.jsonEqual d := by
  induction v using induct_part generalizing level d with
  | step v ih =>
    have hpart {w : Value} (hw : v.Part w) : ¬ w.Holds (.float .nan) := fun hh => hnan (.head hw hh)
    rcases encodeAt_cases h with ⟨hd, hfloat⟩ | ⟨ds, rfl, hds⟩ | ⟨fs, rfl, hfs⟩ | ⟨w, hw, hd⟩
    · exact hd.jsonEqual_self fun hx => hnan (hfloat _ hx ▸ .refl)
    · refine jsonEqual_list_iff.2 ⟨ds, rfl, List.forall₂_same.2 fun e he => ?_⟩
      obtain ⟨w, hw, hwe⟩ := hds e he
      exact ih w hw hwe (hpart hw)
    · obtain ⟨gs, hgs, hnodup, hsub⟩ := exists_dictOf_subset fs
      rw [hgs]
      refine jsonEqual_objects_iff.2 ⟨rfl, fun g hg => ⟨g.2, (lookup_eq_some_iff_mem hnodup).2 hg, ?_⟩⟩
      obtain ⟨w, hw, hwg⟩ := hfs g (hsub hg)
      exact ih w hw hwg (hpart hw)
    · exact ih w hw hd (hpart hw)

end Encoding

end Value

end Lockstep
