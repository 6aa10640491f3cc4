import Mathlib.Logic.Relation
import Lockstep.Proofs.EncodedDocuments
import Lockstep.Proofs.YamlDefects

/-! The payloads of YAML texts: what a text stands for before it is asked whether that is plain data. The objects of a
payload refer to each other, so that one of them can stand in several places, and even in itself. What passes the check
is a tree of plain data as it is; everything else is kept out. -/

namespace Lockstep

namespace Value

/-- All that can be reached in a value is fewer lookups away. -/
def Under (levels : Nat) (v : Value) : Prop := ∀ trail part, v.follow trail = some part → trail.length < levels

section Under
variable {levels : Nat} {v : Value}

private theorem not_under_zero : ¬ v.Under 0 := fun h => absurd (h [] v rfl) (Nat.lt_irrefl 0)

/-- What is in a part is one lookup further away. -/
theorem under_succ_iff :
    v.Under (levels + 1) ↔ ∀ segment part, v.lookup segment = some part → part.Under levels := by
  have hfollow (further : Trail) (segment : Segment) :
      v.follow (further ++ [segment]) = (v.lookup segment).bind fun part => part.follow further := by
    rw [follow_append, follow, follow, Option.bind_some]
  constructor
  · intro h segment part hpart further node hnode
    have hlt := h (further ++ [segment]) node (by rw [hfollow, hpart, Option.bind_some, hnode])
    simpa using hlt
  · intro h trail node hnode
    rcases List.eq_nil_or_concat trail with rfl | ⟨further, segment, rfl⟩
    · exact Nat.succ_pos levels
    · rw [List.concat_eq_append, hfollow] at hnode
      obtain ⟨part, hpart, hnode⟩ := Option.bind_eq_some_iff.1 hnode
      simpa using h segment part hpart further node hnode

theorem IsScalar.under (h : v.IsScalar) (levels : Nat) : v.Under (levels + 1) := by
  rw [under_succ_iff]
  intro segment part hpart
  cases h <;> cases segment <;> cases hpart

theorem under_list_iff {items : List Value} :
    (Value.list items).Under (levels + 1) ↔ ∀ v ∈ items, v.Under levels := by
  rw [under_succ_iff]
  constructor
  · intro h v hv
    obtain ⟨n, hn⟩ := List.mem_iff_getElem?.1 hv
    exact h (.index n) v hn
  · intro h segment part hpart
    cases segment with
    | key name => cases hpart
    | index n => exact h part (List.mem_of_getElem? hpart)

theorem under_object_iff {fields : List (String × Value)} (distinct : (fields.map (·.1)).Nodup) :
    (object fields).Under (levels + 1) ↔ ∀ f ∈ fields, f.2.Under levels := by
  rw [under_succ_iff]
  constructor
  · intro h f hf
    exact h (.key f.1) f.2 ((lookupKey_object _ _).trans ((lookup_eq_some_iff_mem distinct).2 hf))
  · intro h segment part hpart
    cases segment with
    | key name => exact h _ (mem_of_lookup ((lookupKey_object _ _).symm.trans hpart))
    | index n => cases hpart

end Under

end Value

section Option
variable {α β : Type}

theorem mapM_eq_some_iff {f : α → Option β} {xs : List α} {ys : List β} :
    xs.mapM f = some ys ↔ List.Forall₂ (fun x y => f x = some y) xs ys :=
  mapM_eq_pure_iff Option.some.inj Option.bind_eq_some_iff

end Option

namespace Yaml

/-- The objects that a text stands for, by their numbers, and the number of the document. -/
structure Payload where
  objects : Array (Option Built)
  root : NodeId

/-- What the document with this root stands for. -/
def payloadAt (g : Graph) (root : NodeId) : Except Defect Payload := do
  let build : Build Unit := do
    Build.visit root
    Build.rounds (g.size + 2)
  let (_, s) ← build.run ⟨g, Array.replicate g.size none, []⟩
  pure ⟨s.built, root⟩

/-- What a text that holds at most one document stands for. -/
def payloadOf (s : String) : Except Defect Payload := do
  let cs := normalizeBreaks s.toList
  if !cs.all isPrintable then throw .malformed
  match ← graphOf (tokensOf cs) with
  | (_, none) => pure ⟨#[some (.leaf .null)], 0⟩
  | (g, some root) => payloadAt g root

namespace Built

/-- The numbers of the parts of an object. The keys of a dictionary are not among them. -/
def parts : Built → List NodeId
  | .leaf _ => []
  | .list items => items
  | .dict entries => entries.map (·.2)
  | .pairs entries => entries.flatMap fun e => [e.1, e.2]
  | .set => []

/-- An object is plain data as it is, of the same kind and with the same value, where its parts stand for these. -/
inductive IsData (R : NodeId → Value → Prop) : Built → Value → Prop where
  | scalar {v : Value} (h : v.IsScalar) : IsData R (.leaf v) v
  | list {items : List NodeId} {ds : List Value} (h : List.Forall₂ R items ds) : IsData R (.list items) (.list ds)
  | dict {entries : List (Value × NodeId)} {fields : List (String × Value)}
      (keys : entries.map (·.1) = fields.map fun f => .text f.1)
      (h : List.Forall₂ R (entries.map (·.2)) (fields.map (·.2))) : IsData R (.dict entries) (.object fields)
  /-- A list of no pairs is an empty list. -/
  | noPairs : IsData R (.pairs []) (.list [])

/-- No two keys of a dictionary are equal. -/
def DistinctKeys (b : Built) : Prop := ∀ entries, b = .dict entries → Value.DistinctKeys entries

section IsData
variable {R : NodeId → Value → Prop} {b : Built} {d : Value} {levels : Nat}

theorem names_nodup {entries : List (Value × NodeId)} {fields : List (String × Value)}
    (h : DistinctKeys (.dict entries)) (keys : entries.map (·.1) = fields.map fun f => .text f.1) :
    (fields.map (·.1)).Nodup := by
  have hkeys : (entries.map (·.1)).Pairwise fun a b => b.same a = false := List.pairwise_map.2 (h entries rfl)
  rw [keys, List.pairwise_map] at hkeys
  refine List.pairwise_map.2 (hkeys.imp fun {f g} hfg => ?_)
  rw [Value.same_text, beq_eq_false_iff_ne] at hfg
  exact hfg.symm

/-- What the parts of an object stand for are the parts of its data. -/
theorem IsData.exists_part (h : b.IsData R d) {part : NodeId} (hpart : part ∈ b.parts) :
    ∃ e, d.Part e ∧ R part e := by
  cases h with
  | scalar => cases hpart
  | list h =>
    obtain ⟨e, he, hR⟩ := Value.exists_mem_of_forall₂ h.flip part hpart
    exact ⟨e, .item he, hR⟩
  | dict _ h =>
    obtain ⟨e, he, hR⟩ := Value.exists_mem_of_forall₂ h.flip part hpart
    obtain ⟨f, hf, rfl⟩ := List.mem_map.1 he
    exact ⟨f.2, .entry (List.mem_map_of_mem hf), hR⟩
  | noPairs => cases hpart

theorem IsData.plain (hb : b.DistinctKeys) (h : b.IsData R d) (hparts : ∀ part e, d.Part e → R part e → e.Plain) :
    d.Plain := by
  cases h with
  | scalar hd => exact hd.plain
  | list h =>
    refine .list fun e he => ?_
    obtain ⟨part, -, hR⟩ := Value.exists_mem_of_forall₂ h e he
    exact hparts part e (.item he) hR
  | dict keys h =>
    refine .object (names_nodup hb keys) fun f hf => ?_
    obtain ⟨part, -, hR⟩ := Value.exists_mem_of_forall₂ h f.2 (List.mem_map_of_mem hf)
    exact hparts part f.2 (.entry (List.mem_map_of_mem hf)) hR
  | noPairs => exact .list (List.forall_mem_nil _)

/-- The levels below an object are one fewer for its parts. -/
theorem isData_under_iff (hb : b.DistinctKeys) :
    b.IsData (fun part e => R part e ∧ e.Under levels) d ↔ b.IsData R d ∧ d.Under (levels + 1) := by
  have hforall {items : List NodeId} {ds : List Value} :
      List.Forall₂ (fun part e => R part e ∧ e.Under levels) items ds ↔
        List.Forall₂ R items ds ∧ ∀ e ∈ ds, e.Under levels := by
    constructor
    · intro h
      refine ⟨h.imp fun _ _ hpart => hpart.1, fun e he => ?_⟩
      obtain ⟨part, -, hpart⟩ := Value.exists_mem_of_forall₂ h e he
      exact hpart.2
    · rintro ⟨h, hunder⟩
      exact (Value.forall₂_imp_of_mem h.flip fun e he _ hR => ⟨hR, hunder e he⟩).flip
  constructor
  · intro h
    cases h with
    | scalar hd => exact ⟨.scalar hd, hd.under levels⟩
    | list h =>
      obtain ⟨hR, hunder⟩ := hforall.1 h
      exact ⟨.list hR, Value.under_list_iff.2 hunder⟩
    | dict keys h =>
      obtain ⟨hR, hunder⟩ := hforall.1 h
      rw [List.forall_mem_map] at hunder
      exact ⟨.dict keys hR, (Value.under_object_iff (names_nodup hb keys)).2 hunder⟩
    | noPairs => exact ⟨.noPairs, Value.under_list_iff.2 (List.forall_mem_nil _)⟩
  · rintro ⟨h, hunder⟩
    cases h with
    | scalar hd => exact .scalar hd
    | list h => exact .list (hforall.2 ⟨h, Value.under_list_iff.1 hunder⟩)
    | dict keys h =>
      rw [Value.under_object_iff (names_nodup hb keys)] at hunder
      exact .dict keys (hforall.2 ⟨h, List.forall_mem_map.2 hunder⟩)
    | noPairs => exact .noPairs

end IsData

end Built

namespace Payload

def object? (P : Payload) (id : NodeId) : Option Built := P.objects.getD id none

/-- One object stands in another. -/
def Part (P : Payload) (whole part : NodeId) : Prop := ∃ b, P.object? whole = some b ∧ part ∈ b.parts

/-- An object is the document, or stands in it at any depth. -/
def Contains (P : Payload) (id : NodeId) : Prop := Relation.ReflTransGen P.Part P.root id

/-- An object is a tree of plain data as it is: so are its parts, down to scalars. -/
inductive Tree (P : Payload) : NodeId → Value → Prop where
  | intro {id : NodeId} {b : Built} {d : Value} (object : P.object? id = some b) (h : b.IsData (Tree P) d) : Tree P id d

/-- An object is by itself no plain data: another kind of value, or a dictionary with another kind of key, or it stands
in itself. -/
inductive Unplain (P : Payload) (id : NodeId) : Prop where
  | date (d : Date) (object : P.object? id = some (.leaf (.atom (.date d))))
  | dateTime (d : DateTime) (object : P.object? id = some (.leaf (.atom (.dateTime d))))
  | bytes (writable : Bool) (data : List UInt8) (object : P.object? id = some (.leaf (.bytes writable data)))
  | set (object : P.object? id = some .set)
  /-- The parts of a list of pairs are tuples. -/
  | tuple (e : NodeId × NodeId) (entries : List (NodeId × NodeId))
      (object : P.object? id = some (.pairs (e :: entries)))
  | key {entries : List (Value × NodeId)} {e : Value × NodeId} (object : P.object? id = some (.dict entries))
      (he : e ∈ entries) (h : ∀ name, e.1 ≠ .text name)
  | loop (h : Relation.TransGen P.Part id id)

section Tree
variable {P : Payload} {id : NodeId} {b : Built} {d : Value}

theorem tree_iff (hb : P.object? id = some b) : P.Tree id d ↔ b.IsData P.Tree d := by
  constructor
  · intro h
    cases h with
    | intro object h => cases hb.symm.trans object; exact h
  · exact .intro hb

/-- The parts of a tree are trees, whose data are parts of its data. -/
theorem Tree.exists_part (h : P.Tree id d) {part : NodeId} (hpart : P.Part id part) :
    ∃ e, d.Part e ∧ P.Tree part e := by
  obtain ⟨b, hb, hpart⟩ := hpart
  exact ((tree_iff hb).1 h).exists_part hpart

/-- Going from a tree to its parts comes to an end. -/
theorem Tree.acc (h : P.Tree id d) : Acc (fun part whole => P.Part whole part) id := by
  induction d using Value.induct_part generalizing id with
  | step d ih =>
    refine .intro id fun part hpart => ?_
    obtain ⟨e, he, htree⟩ := h.exists_part hpart
    exact ih e he htree

/-- A tree does not stand in itself. -/
theorem Tree.not_loop (h : P.Tree id d) : ¬ Relation.TransGen P.Part id id := by
  have hacc := h.acc
  induction hacc generalizing d with
  | intro id _ ih =>
    intro hloop
    obtain ⟨part, hpart, hback⟩ := Relation.TransGen.head'_iff.1 hloop
    obtain ⟨e, -, htree⟩ := h.exists_part hpart
    exact ih part hpart htree (.tail' hback hpart)

theorem Tree.not_unplain (h : P.Tree id d) : ¬ P.Unplain id := by
  intro hu
  cases hu with
  | date _ object => cases (tree_iff object).1 h with | scalar hv => cases hv
  | dateTime _ object => cases (tree_iff object).1 h with | scalar hv => cases hv
  | bytes _ _ object => cases (tree_iff object).1 h with | scalar hv => cases hv
  | set object => cases (tree_iff object).1 h
  | tuple e entries object => cases (tree_iff object).1 h
  | @key entries e object he hkey =>
    cases (tree_iff object).1 h with
    | dict keys =>
      obtain ⟨f, -, hf⟩ := List.mem_map.1 (keys ▸ List.mem_map_of_mem he)
      exact hkey f.1 hf.symm
  | loop hloop => exact h.not_loop hloop

/-- All that stands in a document that is a tree is one. -/
theorem Tree.of_contains (h : P.Tree P.root d) (hid : P.Contains id) : ∃ e, P.Tree id e := by
  induction hid with
  | refl => exact ⟨d, h⟩
  | tail _ hpart ih =>
    obtain ⟨e, he⟩ := ih
    obtain ⟨e', -, he'⟩ := he.exists_part hpart
    exact ⟨e', he'⟩

/-- No dictionary of the payload has two equal keys. -/
def Distinct (P : Payload) : Prop := ∀ id b, P.object? id = some b → b.DistinctKeys

theorem Tree.plain (hP : P.Distinct) (h : P.Tree id d) : d.Plain := by
  induction d using Value.induct_part generalizing id with
  | step d ih =>
    cases h with
    | intro object h => exact h.plain (hP id _ object) fun part e he htree => ih e he htree

end Tree

section Check
variable {P : Payload} {levels : Nat} {id : NodeId} {d : Value}

/-- The entries of a dictionary are checked one by one, keys and values. -/
theorem mapM_entries_eq_some_iff {f : NodeId → Option Value} {entries : List (Value × NodeId)}
    {rs : List (Value × Value)} :
    entries.mapM (fun ((k, v) : Value × NodeId) => match k with
      | .text key => (f v).map fun v => (Value.text key, v)
      | _ => none) = some rs ↔
    ∃ fields : List (String × Value), entries.map (·.1) = fields.map (fun g => .text g.1) ∧
      List.Forall₂ (fun part e => f part = some e) (entries.map (·.2)) (fields.map (·.2)) ∧
      fields.map (fun g => (.text g.1, g.2)) = rs := by
  rw [mapM_eq_some_iff]
  constructor
  · intro h
    induction h with
    | nil => exact ⟨[], rfl, .nil, rfl⟩
    | @cons e r entries rs her _ ih =>
      obtain ⟨fields, keys, parts, rfl⟩ := ih
      obtain ⟨key, part⟩ := e
      cases key with
      | text name =>
        obtain ⟨v, hv, rfl⟩ := Option.map_eq_some_iff.1 her
        exact ⟨(name, v) :: fields, congrArg _ keys, .cons hv parts, rfl⟩
      | _ => cases her
  · rintro ⟨fields, keys, parts, rfl⟩
    induction entries generalizing fields with
    | nil => cases List.map_eq_nil_iff.1 keys.symm; exact .nil
    | cons e entries ih =>
      obtain ⟨key, part⟩ := e
      cases fields with
      | nil => cases keys
      | cons g fields =>
        obtain ⟨rfl, hkeys⟩ := List.cons.inj keys
        obtain ⟨hv, hparts⟩ := List.forall₂_cons.1 parts
        exact .cons (Option.map_eq_some_iff.2 ⟨g.2, hv, rfl⟩) (ih fields hkeys hparts)

/-- An object is checked by what it is, and its parts one level further down. -/
theorem plainAt_succ_iff : plainAt P.objects (levels + 1) id = some d ↔
    ∃ b, P.object? id = some b ∧ b.IsData (fun part e => plainAt P.objects levels part = some e) d := by
  rw [plainAt, ← object?]
  cases P.object? id with
  | none => simp
  | some b =>
    simp only [Option.some.injEq, exists_eq_left']
    constructor
    · intro h
      cases b with
      | leaf v =>
        cases v <;> cases h
        · exact .scalar .null
        · exact .scalar (.bool _)
        · exact .scalar (.int _)
        · exact .scalar (.float _)
        · exact .scalar (.text _)
      | list items =>
        obtain ⟨ds, hds, rfl⟩ := Option.map_eq_some_iff.1 h
        exact .list (mapM_eq_some_iff.1 hds)
      | dict entries =>
        obtain ⟨rs, hrs, rfl⟩ := Option.map_eq_some_iff.1 h
        obtain ⟨fields, keys, parts, rfl⟩ := mapM_entries_eq_some_iff.1 hrs
        exact .dict keys parts
      | pairs entries =>
        cases entries with
        | nil => cases h; exact .noPairs
        | cons e entries => cases h
      | set => cases h
    · intro h
      cases h with
      | scalar hd => cases hd <;> rfl
      | list parts => exact Option.map_eq_some_iff.2 ⟨_, mapM_eq_some_iff.2 parts, rfl⟩
      | dict keys parts =>
        exact Option.map_eq_some_iff.2 ⟨_, mapM_entries_eq_some_iff.2 ⟨_, keys, parts, rfl⟩, rfl⟩
      | noPairs => rfl

/-- What passes the check are the trees of plain data that are not too deep. -/
theorem plainAt_eq_some_iff (hP : P.Distinct) :
    plainAt P.objects levels id = some d ↔ P.Tree id d ∧ d.Under levels := by
  induction levels generalizing id d with
  | zero => exact iff_of_false nofun fun h => Value.not_under_zero h.2
  | succ levels ih =>
    rw [plainAt_succ_iff]
    simp only [ih]
    constructor
    · rintro ⟨b, hb, h⟩
      rw [Built.isData_under_iff (hP id b hb), ← tree_iff hb] at h
      exact h
    · intro h
      cases h.1 with
      | @intro _ b _ hb hdata => exact ⟨b, hb, (Built.isData_under_iff (hP id b hb)).2 ⟨hdata, h.2⟩⟩

end Check

end Payload

/-- The data of a text is what passes the check of its payload. -/
theorem ofText_eq (s : String) :
    ofText s = (payloadOf s).map fun P => plainAt P.objects (levelLimit + 1) P.root := by
  rw [ofText, payloadOf]
  dsimp only
  split
  · rfl
  · cases graphOf (tokensOf (normalizeBreaks s.toList)) with
    | error d => rfl
    | ok r =>
      obtain ⟨g, _ | root⟩ := r
      · rfl
      · dsimp only [Bind.bind, Except.bind, dataOf, payloadAt]
        generalize StateT.run _ _ = result
        cases result <;> rfl

private theorem ends_payloadAt (g : Graph) (root : NodeId) :
    Ends (fun d => d = .malformed ∨ Valueless g d) Payload.Distinct (payloadAt g root) := by
  refine (Build.ends_build g root).bind fun r hr => ends_ok fun id b hb => ?_
  rintro entries rfl
  exact hr.keys id entries hb

/-- The dictionaries of a payload are built with distinct keys. -/
theorem payloadOf_distinct {s : String} {P : Payload} (h : payloadOf s = .ok P) : P.Distinct := by
  rw [payloadOf] at h
  dsimp only at h
  split at h
  · cases h
  · cases hgraph : graphOf (tokensOf (normalizeBreaks s.toList)) with
    | error d => rw [hgraph] at h; cases h
    | ok r =>
      rw [hgraph] at h
      obtain ⟨g, _ | root⟩ := r
      · cases h
        rintro id b hb entries rfl
        obtain _ | id := id <;> cases hb
      · exact (ends_payloadAt g root).ok P h

end Yaml

end Lockstep
