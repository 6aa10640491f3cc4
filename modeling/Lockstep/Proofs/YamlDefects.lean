import Lockstep.Proofs.PlainDocuments
import Lockstep.Proofs.TokenDefects
import Lockstep.Yaml.Data

/-! Where the defects of a YAML text come from that are not defects of its structure. Reading the nodes of a text
adds no such defect to what the tokens have, and giving values to the nodes adds only those of scalars whose text has
no value under the tag of a node. -/

namespace Lockstep.Yaml

/-- A computation that raises only defects of a kind, and keeps a property of the states. -/
structure Keeps {σ α : Type} (I : σ → Prop) (E : Defect → Prop) (m : StateT σ (Except Defect) α) : Prop where
  ends : ∀ s, I s → Ends E (fun r => I r.2) (m s)

section Keeps
variable {σ α β : Type} {I : σ → Prop} {E : Defect → Prop}

private theorem keeps_pure (a : α) : Keeps I E (pure a) := ⟨fun _ hs => ends_ok hs⟩

private theorem keeps_throw {d : Defect} (h : E d) : Keeps I E (throw d : StateT σ (Except Defect) α) :=
  ⟨fun _ _ => ends_error h⟩

private theorem keeps_get : Keeps I E (get : StateT σ (Except Defect) σ) := ⟨fun _ hs => ends_ok hs⟩

private theorem keeps_set {s : σ} (h : I s) : Keeps I E (set s : StateT σ (Except Defect) PUnit) :=
  ⟨fun _ _ => ends_ok h⟩

private theorem keeps_modify {f : σ → σ} (h : ∀ s, I s → I (f s)) :
    Keeps I E (modify f : StateT σ (Except Defect) PUnit) :=
  ⟨fun s hs => ends_ok (h s hs)⟩

theorem Keeps.bind {m : StateT σ (Except Defect) α} {f : α → StateT σ (Except Defect) β} (hm : Keeps I E m)
    (hf : ∀ a, Keeps I E (f a)) : Keeps I E (m >>= f) :=
  ⟨fun s hs => (hm.ends s hs).bind fun r hr => (hf r.1).ends r.2 hr⟩

/-- What follows may make use of the property of the state that was asked for. -/
theorem keeps_get_bind {f : σ → StateT σ (Except Defect) α} (h : ∀ s, I s → Keeps I E (f s)) :
    Keeps I E (get >>= f) := ⟨fun s hs => (h s hs).ends s hs⟩

private theorem keeps_pure_bind {a : α} {f : α → StateT σ (Except Defect) β} (h : Keeps I E (f a)) :
    Keeps I E (pure a >>= f) := ⟨h.ends⟩

private theorem keeps_throw_bind {d : Defect} {f : α → StateT σ (Except Defect) β} (h : E d) :
    Keeps I E (throw d >>= f) := ⟨fun _ _ => ends_error h⟩

private theorem keeps_foldlM {f : β → α → StateT σ (Except Defect) β} (h : ∀ b a, Keeps I E (f b a)) (xs : List α)
    (b : β) : Keeps I E (xs.foldlM f b) := by
  induction xs generalizing b with
  | nil => exact keeps_pure b
  | cons x xs ih => rw [List.foldlM_cons]; exact (h b x).bind ih

private theorem keeps_forM {f : α → StateT σ (Except Defect) PUnit} (h : ∀ a, Keeps I E (f a)) (xs : List α) :
    Keeps I E (xs.forM f) := by
  induction xs with
  | nil => exact keeps_pure _
  | cons x xs ih => exact (h x).bind fun _ => ih

private theorem keeps_mapM {f : α → StateT σ (Except Defect) β} (h : ∀ a, Keeps I E (f a)) (xs : List α) :
    Keeps I E (xs.mapM f) := by
  induction xs with
  | nil => exact keeps_pure _
  | cons x xs ih => rw [List.mapM_cons]; exact (h x).bind fun _ => ih.bind fun _ => keeps_pure _

/-- A computation whose results have a property, whatever it starts from. -/
def Returns (P : α → Prop) (m : StateT σ (Except Defect) α) : Prop := ∀ s, Ends (fun _ => True) (fun r => P r.1) (m s)

private theorem returns_pure {P : α → Prop} {a : α} (h : P a) : Returns P (pure a : StateT σ (Except Defect) α) :=
  fun _ => ends_ok h

private theorem returns_throw {P : α → Prop} (d : Defect) : Returns P (throw d : StateT σ (Except Defect) α) :=
  fun _ => ends_error trivial

private theorem returns_bind {Q : β → Prop} (m : StateT σ (Except Defect) α) {f : α → StateT σ (Except Defect) β}
    (hf : ∀ a, Returns Q (f a)) : Returns Q (m >>= f) := by
  intro s
  have hm : Ends (fun _ => True) (fun _ => True) (m s) := ⟨fun _ _ => trivial, fun _ _ => trivial⟩
  exact hm.bind fun r _ => hf r.1 r.2

private theorem returns_foldlM {P : β → Prop} {f : β → α → StateT σ (Except Defect) β}
    (h : ∀ b a, P b → Returns P (f b a)) (xs : List α) {b : β} (hb : P b) : Returns P (xs.foldlM f b) := by
  induction xs generalizing b with
  | nil => exact returns_pure hb
  | cons x xs ih =>
    rw [List.foldlM_cons]
    exact fun s => (h b x hb s).bind fun r hr => ih hr r.2

/-- What follows may make use of the property that a result has. -/
theorem Keeps.bind_of_returns {P : α → Prop} {m : StateT σ (Except Defect) α} {f : α → StateT σ (Except Defect) β}
    (hm : Keeps I E m) (hP : Returns P m) (hf : ∀ a, P a → Keeps I E (f a)) : Keeps I E (m >>= f) := by
  refine ⟨fun s hs => Ends.bind (P := fun r => I r.2 ∧ P r.1) ?_ fun r hr => (hf r.1 hr.2).ends r.2 hr.1⟩
  exact ⟨fun r hr => ⟨(hm.ends s hs).ok r hr, (hP s).ok r hr⟩, (hm.ends s hs).error⟩

end Keeps

namespace GraphM
variable {d? : Option Defect} {α : Type}

/-- What reading nodes does to the defect of the tokens: it is raised at most, and stays. Anything else that is
raised is a defect of the structure. -/
abbrev KeepsDefect (d? : Option Defect) (m : GraphM α) : Prop :=
  Keeps (fun s => s.defect? = d?) (fun d => d = .malformed ∨ d? = some d) m

private theorem keeps_malformed : KeepsDefect d? (malformed : GraphM α) := keeps_throw (.inl rfl)

private theorem keeps_peek : KeepsDefect d? peek := by
  refine keeps_get_bind fun s hs => ?_
  split
  · exact keeps_pure _
  · exact keeps_pure _
  · rename_i d hd
    exact keeps_throw (.inr (hs ▸ hd))

private theorem keeps_skip : KeepsDefect d? skip := keeps_modify fun _ hs => hs

private theorem keeps_next (ts : List Token) : KeepsDefect d? (next ts) := by
  refine keeps_peek.bind fun t => ?_
  cases t <;> exact keeps_pure _

private theorem keeps_accept (t : Token) : KeepsDefect d? (accept t) := by
  refine (keeps_next _).bind fun found => ?_
  split
  · exact keeps_skip.bind fun _ => keeps_pure _
  · exact keeps_pure _

private theorem keeps_expect (t : Token) : KeepsDefect d? (expect t) := by
  refine (keeps_accept _).bind fun found => ?_
  split
  · exact keeps_pure _
  · exact keeps_malformed

private theorem keeps_reserve (anchor : Option String) : KeepsDefect d? (reserve anchor) := by
  refine keeps_get_bind fun s hs => ?_
  have hset (anchors : List (String × NodeId)) : KeepsDefect d? (do
      set { s with nodes := s.nodes.push default, anchors := anchors }
      pure s.nodes.size : GraphM NodeId) := by
    refine (keeps_set ?_).bind fun _ => keeps_pure _
    exact hs
  cases anchor with
  | none => exact hset _
  | some name =>
    dsimp only
    split
    · exact keeps_malformed.bind hset
    · exact hset _

private theorem keeps_define (id : NodeId) (tag : Tag) (content : Content) :
    KeepsDefect d? (define id tag content) := by
  refine (keeps_modify fun _ hs => ?_).bind fun _ => keeps_pure _
  exact hs

private theorem keeps_scalarNode (anchor written : Option String) (text : String) (plain : Bool) :
    KeepsDefect d? (scalarNode anchor written text plain) :=
  (keeps_reserve anchor).bind fun _ => keeps_define ..

private theorem keeps_emptyNode : KeepsDefect d? emptyNode := keeps_scalarNode ..

private theorem keeps_tagName (handle : Option String) (suffix : String) : KeepsDefect d? (tagName handle suffix) := by
  cases handle with
  | none => exact keeps_pure _
  | some handle =>
    refine keeps_get.bind fun s => ?_
    split
    · exact keeps_pure _
    · exact keeps_malformed

private theorem keeps_anchorPart : KeepsDefect d? anchorPart := by
  refine keeps_peek.bind fun t => ?_
  split
  · exact keeps_skip.bind fun _ => keeps_pure _
  · exact keeps_pure _

private theorem keeps_tagPart : KeepsDefect d? tagPart := by
  refine keeps_peek.bind fun t => ?_
  split
  · exact keeps_skip.bind fun _ => keeps_pure _
  · exact keeps_pure _

private theorem keeps_properties : KeepsDefect d? properties := by
  refine keeps_anchorPart.bind fun first => keeps_tagPart.bind fun tag => ?_
  cases tag with
  | none => cases first <;> exact (keeps_pure _).bind fun _ => keeps_pure _
  | some written =>
    have hrest (anchor : Option String) : KeepsDefect d? (do
        pure (anchor, some (← tagName written.1 written.2)) : GraphM (Option String × Option String)) :=
      (keeps_tagName _ _).bind fun _ => keeps_pure _
    cases first with
    | none => exact keeps_anchorPart.bind hrest
    | some anchor => exact (keeps_pure _).bind hrest

/-- The parsers of nodes and of the parts of collections, when this many steps are left. -/
structure ParsersKeep (d? : Option Defect) (fuel : Nat) : Prop where
  node (place : Place) : KeepsDefect d? (node place fuel)
  nodeBefore (place : Place) (ends : List Token) : KeepsDefect d? (nodeBefore place ends fuel)
  blockItems : KeepsDefect d? (blockItems fuel)
  looseEntries : KeepsDefect d? (looseEntries fuel)
  blockEntries : KeepsDefect d? (blockEntries fuel)
  flowItems (first : Bool) : KeepsDefect d? (flowItems first fuel)
  flowEntries (first : Bool) : KeepsDefect d? (flowEntries first fuel)

/-- A collection is reserved before its parts are read, and defined after them. -/
theorem keeps_collection {parts : GraphM α} (hparts : KeepsDefect d? parts) (anchor : Option String) (tag : Tag)
    (content : α → Content) :
    KeepsDefect d? (do let id ← reserve anchor; define id tag (content (← parts)) : GraphM NodeId) :=
  (keeps_reserve anchor).bind fun _ => hparts.bind fun _ => keeps_define _ _ _

private theorem keeps_cons {item : GraphM α} {rest : GraphM (List α)} (hitem : KeepsDefect d? item)
    (hrest : KeepsDefect d? rest) : KeepsDefect d? (do let x ← item; pure (x :: (← rest))) :=
  hitem.bind fun _ => hrest.bind fun _ => keeps_pure _

private theorem keeps_node {fuel : Nat} (h : ParsersKeep d? fuel) (place : Place) :
    KeepsDefect d? (node place (fuel + 1)) := by
  rw [node]
  refine keeps_peek.bind fun t => ?_
  split
  · refine keeps_skip.bind fun _ => keeps_get.bind fun s => ?_
    split
    · exact keeps_pure _
    · exact keeps_malformed
  · refine keeps_properties.bind fun r => keeps_peek.bind fun token => ?_
    split
    · exact keeps_collection h.looseEntries _ _ _
    · split
      · exact keeps_skip.bind fun _ => keeps_scalarNode _ _ _ _
      · exact keeps_skip.bind fun _ => keeps_collection (h.flowItems true) _ _ _
      · exact keeps_skip.bind fun _ => keeps_collection (h.flowEntries true) _ _ _
      · split
        · exact keeps_skip.bind fun _ => keeps_collection h.blockItems _ _ _
        · split
          · exact keeps_skip.bind fun _ => keeps_collection h.blockEntries _ _ _
          · split
            · exact keeps_scalarNode _ _ _ _
            · exact keeps_malformed

/-- The value of an entry need not be written. -/
theorem keeps_entryValue {value : GraphM NodeId} {rest : NodeId → GraphM α} (hvalue : KeepsDefect d? value)
    (hrest : ∀ id, KeepsDefect d? (rest id)) :
    KeepsDefect d? (do if ← accept .value then value >>= rest else emptyNode >>= rest) := by
  refine (keeps_accept _).bind fun found => ?_
  split
  · exact hvalue.bind hrest
  · exact keeps_emptyNode.bind hrest

/-- A comma stands before every part of a flow collection but the first. -/
theorem keeps_afterComma {first : Bool} {rest : PUnit → GraphM α} (hrest : ∀ u, KeepsDefect d? (rest u)) :
    KeepsDefect d? (if first = true then rest () else expect .flowEntry >>= rest) := by
  split
  · exact hrest ()
  · exact (keeps_expect _).bind hrest

private theorem keeps_flowItems {fuel : Nat} (h : ParsersKeep d? fuel) (first : Bool) :
    KeepsDefect d? (flowItems first (fuel + 1)) := by
  rw [flowItems]
  refine (keeps_accept _).bind fun ended => ?_
  split
  · exact keeps_pure _
  · refine keeps_afterComma fun _ => (keeps_accept _).bind fun keyed => ?_
    split
    · refine (keeps_reserve none).bind fun id => (h.nodeBefore _ _).bind fun key => ?_
      exact keeps_entryValue (h.nodeBefore _ _) fun value => keeps_cons (keeps_define _ _ _) (h.flowItems false)
    · refine (keeps_accept _).bind fun ended => ?_
      split
      · exact keeps_pure _
      · exact keeps_cons (h.node _) (h.flowItems false)

private theorem keeps_flowEntries {fuel : Nat} (h : ParsersKeep d? fuel) (first : Bool) :
    KeepsDefect d? (flowEntries first (fuel + 1)) := by
  rw [flowEntries]
  refine (keeps_accept _).bind fun ended => ?_
  have hrest (key value : NodeId) : KeepsDefect d? (do pure ((key, value) :: (← flowEntries false fuel))) :=
    (h.flowEntries false).bind fun _ => keeps_pure _
  split
  · exact keeps_pure _
  · refine keeps_afterComma fun _ => (keeps_accept _).bind fun keyed => ?_
    split
    · exact (h.nodeBefore _ _).bind fun key => keeps_entryValue (h.nodeBefore _ _) (hrest key)
    · refine (keeps_accept _).bind fun ended => ?_
      split
      · exact keeps_pure _
      · exact (h.node _).bind fun key => keeps_emptyNode.bind (hrest key)

private theorem parsersKeep (fuel : Nat) : ParsersKeep d? fuel := by
  -- The parsers call each other with one step less, so a single induction carries all of them.
  induction fuel with
  | zero =>
    exact ⟨fun _ => keeps_malformed, fun _ _ => keeps_malformed, keeps_malformed, keeps_malformed, keeps_malformed,
      fun _ => keeps_malformed, fun _ => keeps_malformed⟩
  | succ fuel ih =>
    refine ⟨keeps_node ih, fun place ends => ?_, ?_, ?_, ?_, keeps_flowItems ih, keeps_flowEntries ih⟩
    · rw [nodeBefore]
      refine (keeps_next _).bind fun found => ?_
      split
      · exact keeps_emptyNode
      · exact ih.node _
    · rw [blockItems]
      refine (keeps_accept _).bind fun found => ?_
      split
      · exact keeps_cons (ih.nodeBefore _ _) ih.blockItems
      · exact (keeps_expect _).bind fun _ => keeps_pure _
    · rw [looseEntries]
      refine (keeps_accept _).bind fun found => ?_
      split
      · exact keeps_cons (ih.nodeBefore _ _) ih.looseEntries
      · exact keeps_pure _
    · rw [blockEntries]
      refine (keeps_accept _).bind fun found => ?_
      split
      · refine (ih.nodeBefore _ _).bind fun key => keeps_entryValue (ih.nodeBefore _ _) fun value => ?_
        exact ih.blockEntries.bind fun _ => keeps_pure _
      · exact (keeps_expect _).bind fun _ => keeps_pure _

private theorem keeps_directives (fuel : Nat) (versioned : Bool) (handles : List (String × String)) :
    KeepsDefect d? (directives fuel versioned handles) := by
  induction fuel generalizing versioned handles with
  | zero => exact keeps_malformed
  | succ fuel ih =>
    rw [directives]
    refine keeps_peek.bind fun t => ?_
    split
    · refine keeps_skip.bind fun _ => ?_
      split
      · split
        · exact keeps_malformed
        · exact ih _ _
      · split
        · exact keeps_malformed
        · exact ih _ _
      · exact ih _ _
    · exact keeps_pure _

private theorem keeps_explicit (fuel : Nat) : KeepsDefect d? (document.explicit fuel) := by
  refine (keeps_directives _ _ _).bind fun handles => (keeps_modify fun s hs => ?_).bind fun _ => ?_
  · exact hs
  · refine (keeps_expect _).bind fun _ => keeps_peek.bind fun t => ?_
    split
    · exact keeps_emptyNode
    · exact keeps_emptyNode
    · exact (parsersKeep fuel).nodeBefore _ _

private theorem keeps_endings (fuel : Nat) : KeepsDefect d? (document.endings fuel) := by
  induction fuel with
  | zero => exact keeps_malformed
  | succ fuel ih =>
    rw [document.endings]
    refine (keeps_accept _).bind fun ended => ?_
    split
    · exact ih
    · refine keeps_peek.bind fun t => ?_
      split
      · exact keeps_malformed
      · exact keeps_pure _

private theorem keeps_document (fuel : Nat) : KeepsDefect d? (document fuel) := by
  refine keeps_peek.bind fun t => ?_
  have hrest (root : Option NodeId) : KeepsDefect d? (do document.endings fuel; pure root) :=
    (keeps_endings fuel).bind fun _ => keeps_pure _
  have hsome {node : GraphM NodeId} (h : KeepsDefect d? node) : KeepsDefect d? (some <$> node) :=
    h.bind fun _ => keeps_pure _
  split
  · exact (keeps_pure _).bind hrest
  · exact (hsome (keeps_explicit fuel)).bind hrest
  · exact (hsome (keeps_explicit fuel)).bind hrest
  · exact (hsome ((parsersKeep fuel).node _)).bind hrest

end GraphM

/-- Reading the nodes of a document adds nothing to the defects of its tokens but defects of structure. -/
theorem graphOf_eq_error {tokens : Tokens} {d : Defect} (h : graphOf tokens = .error d) :
    d = .malformed ∨ tokens.defect? = some d := by
  rw [graphOf] at h
  have hends := (GraphM.keeps_document (4 * tokens.read.length + 8)).ends
    ⟨tokens.read, tokens.defect?, GraphM.standardHandles, #[], []⟩ rfl
  dsimp only [StateT.run] at h
  generalize GraphM.document _ _ = result at h hends
  cases result with
  | ok r => cases h
  | error d => cases h; exact hends.error d rfl

/-- A graph after some merging: a tag stays unless it has become that of a text, and a scalar is one that was there
before. -/
structure Kept (g g' : Graph) : Prop where
  tag : ∀ id, (g'.node id).tag = (g.node id).tag ∨ (g'.node id).tag = .str
  scalar : ∀ id text, (g'.node id).content = .scalar text → (g.node id).content = .scalar text

private theorem node_modify (g : Graph) (id id' : NodeId) (f : Node → Node) :
    Graph.node (g.modify id f) id' = g.node id' ∨ Graph.node (g.modify id f) id' = f (g.node id') := by
  unfold Graph.node
  by_cases hlt : id' < g.size
  · by_cases hid : id = id'
    · right; simp [Array.getD, hlt, hid, Array.getElem_modify]
    · left; simp [Array.getD, hlt, hid, Array.getElem_modify]
  · left; simp [Array.getD, hlt]

namespace Kept
variable {g g' : Graph}

theorem refl (g : Graph) : Kept g g := ⟨fun _ => .inl rfl, fun _ _ h => h⟩

theorem modify (h : Kept g g') (id : NodeId) {f : Node → Node} (htag : ∀ n, (f n).tag = n.tag ∨ (f n).tag = .str)
    (hscalar : ∀ n text, (f n).content = .scalar text → n.content = .scalar text) : Kept g (g'.modify id f) := by
  refine ⟨fun id' => ?_, fun id' text htext => ?_⟩
  · rcases node_modify g' id id' f with hnode | hnode
    · rw [hnode]; exact h.tag id'
    · rw [hnode]
      rcases htag (g'.node id') with hf | hf
      · rw [hf]; exact h.tag id'
      · exact .inr hf
  · rcases node_modify g' id id' f with hnode | hnode
    · rw [hnode] at htext; exact h.scalar id' text htext
    · rw [hnode] at htext; exact h.scalar id' text (hscalar _ _ htext)

theorem setEntries (h : Kept g g') (id : NodeId) (entries : List (NodeId × NodeId)) :
    Kept g (g'.setEntries id entries) :=
  h.modify id (fun _ => .inl rfl) nofun

end Kept

/-- Merging keeps the scalars and raises defects of structure only. -/
theorem ends_merge {g : Graph} (fuel : Nat) :
    (∀ g' id position merged, Kept g g' → Ends (· = .malformed) (Kept g) (mergeFrom fuel g' id position merged)) ∧
    ∀ g' items, Kept g g' → Ends (· = .malformed) (fun r : Graph × _ => Kept g r.1) (mergeItems fuel g' items) := by
  induction fuel with
  | zero => exact ⟨fun _ _ _ _ _ => ends_error rfl, fun _ _ _ => ends_error rfl⟩
  | succ fuel ih =>
    obtain ⟨ihFrom, ihItems⟩ := ih
    refine ⟨fun g' id position merged h => ?_, fun g' items h => ?_⟩
    · rw [mergeFrom]
      split
      · split
        · exact ends_ok h
        · exact ends_ok (h.setEntries _ _)
      · split
        · have hset := h.setEntries id ((g'.entries id).eraseIdx position)
          have hrest (r : Graph × List (NodeId × NodeId)) (hr : Kept g r.1) :
              Ends (· = .malformed) (Kept g) (mergeFrom fuel r.1 id position (merged ++ r.2)) := ihFrom _ _ _ _ hr
          dsimp only
          split
          · exact (ihFrom _ _ _ _ hset).bind fun _ hg => hrest (_, _) hg
          · exact (ihItems _ _ hset).bind hrest
          · exact ends_error rfl
        · exact ihFrom _ _ _ _ (h.modify _ (fun _ => .inr rfl) fun _ _ htext => htext)
        · exact ihFrom _ _ _ _ h
    · cases items with
      | nil => exact ends_ok h
      | cons v rest =>
        rw [mergeItems]
        split
        · refine (ihFrom _ _ _ _ h).bind fun _ hg => (ihItems _ _ hg).bind fun _ hr => ends_ok hr
        · exact ends_error rfl

/-- The text of a node is that of a scalar. -/
theorem exists_scalar_of_text? {g : Graph} {fuel : Nat} {id : NodeId} {text : String}
    (h : g.text? fuel id = some text) : ∃ part, (g.node part).content = .scalar text := by
  induction fuel generalizing id with
  | zero => cases h
  | succ fuel ih =>
    rw [Graph.text?] at h
    split at h
    · rename_i hcontent
      exact ⟨id, hcontent.trans (congrArg _ (Option.some.inj h))⟩
    · split at h
      · exact ih h
      · cases h
    · cases h

/-- A scalar of the graph has no value under the tag of a node that takes its text, for this reason. -/
def Valueless (g : Graph) (d : Defect) : Prop :=
  ∃ id part text, (g.node part).content = .scalar text ∧ scalarOf? (g.node id).tag text = some (.error d)

private theorem Kept.valueless {g g' : Graph} (h : Kept g g') {d : Defect} (hd : Valueless g' d) : Valueless g d := by
  obtain ⟨id, part, text, htext, hd⟩ := hd
  refine ⟨id, part, text, h.scalar part text htext, ?_⟩
  rcases h.tag id with htag | htag
  · rwa [← htag]
  · rw [htag] at hd; cases hd

/-- What holds of a builder at all times: its graph stays as it was but for merging, and no dictionary that is built
has two equal keys. -/
structure Builder.Sound (g : Graph) (s : Builder) : Prop where
  graph : Kept g s.graph
  keys : ∀ id entries, s.built.getD id none = some (.dict entries) → Value.DistinctKeys entries

theorem Builder.Sound.setBuilt {g : Graph} {s : Builder} (h : s.Sound g) (id : NodeId) {b : Built}
    (hb : ∀ entries, b = .dict entries → Value.DistinctKeys entries) :
    Builder.Sound g { s with built := s.built.setIfInBounds id (some b) } := by
  refine ⟨h.graph, fun id' entries hentries => ?_⟩
  by_cases hset : id' = id ∧ id < s.built.size
  · obtain ⟨rfl, hlt⟩ := hset
    exact hb entries (by simpa [Array.getD, hlt] using hentries)
  · refine h.keys id' entries (Eq.trans ?_ hentries)
    simp only [Array.getD_eq_getD_getElem?, Array.getElem?_setIfInBounds]
    grind

namespace Build
variable {g : Graph} {α : Type}

/-- What building data does: it keeps builders sound, and what is raised is a defect of structure or that of a scalar
without a value. -/
abbrev KeepsSound (g : Graph) (m : Build α) : Prop :=
  Keeps (Builder.Sound g) (fun d => d = .malformed ∨ Valueless g d) m

private theorem keeps_malformed : KeepsSound g (throw .malformed : Build α) := keeps_throw (.inl rfl)

private theorem keeps_setBuilt (id : NodeId) {b : Built}
    (hb : ∀ entries, b = .dict entries → Value.DistinctKeys entries) : KeepsSound g (setBuilt id b) :=
  keeps_modify fun _ hs => hs.setBuilt id hb

private theorem keeps_visit (id : NodeId) : KeepsSound g (visit id) := by
  refine keeps_get_bind fun s hs => ?_
  split
  · exact keeps_pure _
  · dsimp only
    split
    · exact (keeps_setBuilt _ (by nofun)).bind fun _ => keeps_modify fun s hs => ⟨hs.graph, hs.keys⟩
    · split
      · split
        · exact keeps_malformed
        · rename_i text htext
          split
          · exact keeps_setBuilt _ nofun
          · rename_i d hd
            obtain ⟨part, hpart⟩ := exists_scalar_of_text? htext
            exact keeps_throw (.inr (hs.graph.valueless ⟨id, part, text, hpart, hd⟩))
          · exact keeps_malformed
      · exact keeps_malformed

private theorem keeps_keyOf (id : NodeId) : KeepsSound g (keyOf id) := by
  refine (keeps_visit id).bind fun _ => keeps_get.bind fun s => ?_
  split
  · exact keeps_pure _
  · exact keeps_malformed

/-- The entries of a mapping once its merge keys are resolved. -/
theorem keeps_resolved {g' : Graph} (h : Kept g g') (id : NodeId) : KeepsSound g (do
    modify fun s => { s with graph := g' }
    (g'.entries id).foldlM (fun entries (k, v) => do
      let key ← keyOf k
      visit v
      pure (Value.insertEntry key v entries)) [] : Build (List (Value × NodeId))) := by
  refine (keeps_modify fun _ hs => ⟨h, hs.keys⟩).bind fun _ => keeps_foldlM (fun entries e => ?_) _ _
  exact (keeps_keyOf _).bind fun key => (keeps_visit _).bind fun _ => keeps_pure _

private theorem keeps_mappingOf (id : NodeId) : KeepsSound g (mappingOf id) := by
  refine keeps_get_bind fun s hs => ?_
  split
  · -- The merged graph is kept because of how merging ends, so the two ends are told apart before the rest.
    have hmerge := (ends_merge (mergeFuel s.graph)).1 s.graph id 0 [] hs.graph
    cases hm : mergeFrom (mergeFuel s.graph) s.graph id 0 [] with
    | error d => exact keeps_throw_bind (.inl (hmerge.error d hm))
    | ok g' => exact keeps_pure_bind (keeps_resolved (hmerge.ok g' hm) id)
  · exact keeps_malformed

/-- The entries are stored one by one, so that their keys are distinct. -/
theorem returns_mappingOf (id : NodeId) : Returns Value.DistinctKeys (mappingOf id) := by
  refine returns_bind _ fun s => ?_
  split
  · dsimp only
    split
    · refine returns_bind _ fun g => returns_bind _ fun _ => returns_foldlM (fun entries e hentries => ?_) _ .nil
      exact returns_bind _ fun key => returns_bind _ fun _ => returns_pure (hentries.insertEntry key e.2)
    · exact fun _ => ends_error trivial
  · exact returns_throw _

private theorem keeps_itemsOf (id : NodeId) : KeepsSound g (itemsOf id) := by
  refine keeps_get.bind fun s => ?_
  split
  · exact keeps_pure _
  · exact keeps_malformed

private theorem keeps_pairOf (id : NodeId) : KeepsSound g (pairOf id) := by
  refine keeps_get.bind fun s => ?_
  split
  · exact (keeps_visit _).bind fun _ => (keeps_visit _).bind fun _ => keeps_pure _
  · exact keeps_malformed

private theorem keeps_expand (id : NodeId) : KeepsSound g (expand id) := by
  refine keeps_get.bind fun s => ?_
  split
  · exact (keeps_itemsOf id).bind fun items => (keeps_forM keeps_visit items).bind fun _ => keeps_setBuilt _ nofun
  · refine (keeps_mappingOf id).bind_of_returns (returns_mappingOf id) fun entries hentries => keeps_setBuilt _ ?_
    rintro _ ⟨⟩
    exact hentries
  · exact ((keeps_mappingOf id).bind fun _ => keeps_pure _).bind fun _ => keeps_setBuilt _ nofun
  · exact (keeps_itemsOf id).bind fun items => (keeps_mapM keeps_pairOf items).bind fun _ => keeps_setBuilt _ nofun

private theorem keeps_rounds (fuel : Nat) : KeepsSound g (rounds fuel) := by
  induction fuel with
  | zero => exact keeps_malformed
  | succ fuel ih =>
    refine keeps_get_bind fun s hs => ?_
    split
    · exact keeps_pure _
    · exact (keeps_set ⟨hs.graph, hs.keys⟩).bind fun _ => (keeps_forM keeps_expand _).bind fun _ => ih

/-- Building all that a node leads to, from the start. -/
theorem ends_build (g : Graph) (root : NodeId) :
    Ends (fun d => d = .malformed ∨ Valueless g d) (fun r => r.2.Sound g)
      ((do visit root; rounds (g.size + 2) : Build Unit).run ⟨g, Array.replicate g.size none, []⟩) := by
  have hbuild : KeepsSound g (do visit root; rounds (g.size + 2)) :=
    (keeps_visit root).bind fun _ => keeps_rounds _
  refine hbuild.ends _ ⟨.refl g, fun id entries h => ?_⟩
  rw [Array.getD_eq_getD_getElem?, Array.getElem?_replicate] at h
  split at h <;> cases h

end Build

/-- Giving values to the nodes of a graph raises defects of its structure and of its scalars. -/
theorem dataOf_eq_error {g : Graph} {root : NodeId} {d : Defect} (h : dataOf g root = .error d) :
    d = .malformed ∨ Valueless g d := by
  have hends : Ends (fun d => d = .malformed ∨ Valueless g d) (fun _ => True) (dataOf g root) :=
    (Build.ends_build g root).bind fun _ _ => ends_ok trivial
  exact hends.error d h

/-- A document that is a scalar without a value raises what stands against the value. -/
theorem dataOf_scalar {g : Graph} {root : NodeId} {text : String} {d : Defect}
    (htext : (g.node root).content = .scalar text) (h : scalarOf? (g.node root).tag text = some (.error d)) :
    dataOf g root = .error d := by
  have hscalar : Build.isScalarTag (g.node root).tag = true := by
    cases htag : (g.node root).tag <;> rw [htag] at h <;> first | rfl | cases h
  have hcollection : Build.isCollectionTag (g.node root).tag = false := by
    cases htag : (g.node root).tag <;> rw [htag] at h <;> first | rfl | cases h
  have hown : g.text? (g.size + 1) root = some text := by rw [Graph.text?, htext]
  have hvisit : (Build.visit root).run ⟨g, Array.replicate g.size none, []⟩ = .error d := by
    have hnew : (Array.replicate g.size (none : Option Built)).getD root none = none := by
      simp [Array.getD]
    simp only [Build.visit, StateT.run, Bind.bind, StateT.bind, get, getThe, MonadStateOf.get, StateT.get,
      Except.bind, pure, Except.pure, hnew, hscalar, hcollection, hown, h]
    rfl
  have hbuild : (do Build.visit root; Build.rounds (g.size + 2) : Build Unit).run
      ⟨g, Array.replicate g.size none, []⟩ = .error d := by
    rw [StateT.run_bind, hvisit]
    rfl
  rw [dataOf]
  dsimp only
  rw [hbuild]
  rfl

/-- The tags of the scalars that may have no value, and what can stand against the value. -/
inductive ScalarDefect : Tag → Defect → Prop where
  | unknownBoolean : ScalarDefect .bool (.scalar .unknownBoolean)
  | emptyInteger : ScalarDefect .int (.scalar .emptyNumber)
  | malformedInteger : ScalarDefect .int (.scalar .malformedNumber)
  | emptyFloat : ScalarDefect .float (.scalar .emptyNumber)
  | malformedFloat : ScalarDefect .float (.scalar .malformedNumber)
  | overflow : ScalarDefect .float (.scalar .overflow)
  | malformedTimestamp : ScalarDefect .timestamp (.scalar .malformedTimestamp)
  | impossibleDate : ScalarDefect .timestamp (.scalar .impossibleDate)
  | binary : ScalarDefect .binary .malformed

private theorem ends_intOf (s : String) : Ends (ScalarDefect .int) (fun _ => True) (intOf s) := by
  refine (ends_error .emptyInteger).ite ?_
  split
  · exact ends_ok trivial
  · exact ends_error .malformedInteger

private theorem ends_sumSixties (base : Nat) (sum : Binary64) (groups : List Binary64) :
    Ends (ScalarDefect .float) (fun _ => True) (sumSixties base sum groups) := by
  induction groups generalizing base sum with
  | nil => exact ends_ok trivial
  | cons d rest ih => exact (ends_error .overflow).ite (ih _ _)

private theorem ends_floatOf (s : String) : Ends (ScalarDefect .float) (fun _ => True) (floatOf s) := by
  have hrest (x : Binary64) : Ends (ScalarDefect .float) (fun _ => True)
      (pure (if (lowerAscii (withoutUnderscores s)).head? = some '-' then -x else x)) := ends_ok trivial
  refine (ends_error .emptyFloat).ite (.ite (hrest _) (.ite (hrest _) (.ite ?_ ?_)))
  · cases (colonParts (withoutSign (lowerAscii (withoutUnderscores s)))).mapM looseFloat? with
    | some groups => exact (ends_sumSixties _ _ _).bind fun x _ => hrest x
    | none => exact ends_error .malformedFloat
  · cases looseFloat? (withoutSign (lowerAscii (withoutUnderscores s))) with
    | some x => exact hrest x
    | none => exact ends_error .malformedFloat

private theorem ends_timestampOf (s : String) : Ends (ScalarDefect .timestamp) (fun _ => True) (timestampOf s) := by
  rw [timestampOf]
  split
  · exact ends_error .malformedTimestamp
  · split
    · exact ends_error .impossibleDate
    · exact ends_ok trivial
    · exact ends_ok trivial

private theorem ends_binaryOf (s : String) : Ends (ScalarDefect .binary) (fun _ => True) (binaryOf s) := by
  refine (ends_error .binary).ite ?_
  split
  · exact ends_ok trivial
  · exact ends_error .binary

private theorem scalarDefect_of_scalarOf? {tag : Tag} {text : String} {d : Defect}
    (h : scalarOf? tag text = some (.error d)) : ScalarDefect tag d := by
  have hmap {α : Type} {x : Except Defect α} {f : α → Value} (hx : Ends (ScalarDefect tag) (fun _ => True) x)
      (h : x.map f = .error d) : ScalarDefect tag d := by
    cases x with
    | ok a => cases h
    | error d' => cases h; exact hx.error _ rfl
  unfold scalarOf? at h
  split at h
  · cases h
  · split at h
    · cases h
    · cases h; exact .unknownBoolean
  · exact hmap (ends_intOf text) (Option.some.inj h)
  · exact hmap (ends_floatOf text) (Option.some.inj h)
  · exact (ends_binaryOf text).error _ (Option.some.inj h)
  · exact (ends_timestampOf text).error _ (Option.some.inj h)
  · cases h
  · cases h

/-- Where a defect of a text comes from that is not one of its structure: from its tokens, or from the text of a
scalar in its graph under the tag of a node that takes the text. -/
inductive Origin (cs : List Char) (d : Defect) : Prop where
  | token (h : (tokensOf cs).defect? = some d) (kind : TokenDefect d)
  | scalar {g : Graph} {root id part : NodeId} {text : String}
      (hgraph : graphOf (tokensOf cs) = .ok (g, some root)) (htext : (g.node part).content = .scalar text)
      (h : scalarOf? (g.node id).tag text = some (.error d)) (kind : ScalarDefect (g.node id).tag d)

/-- Every defect of a text is one of its structure or has such an origin. -/
theorem ofText_eq_error {s : String} {d : Defect} (h : ofText s = .error d) :
    d = .malformed ∨ Origin (normalizeBreaks s.toList) d := by
  rw [ofText] at h
  dsimp only at h
  split at h
  · cases h
    exact .inl rfl
  · generalize hcs : normalizeBreaks s.toList = cs at h ⊢
    cases hgraph : graphOf (tokensOf cs) with
    | error d' =>
      rw [hgraph] at h
      cases h
      rcases graphOf_eq_error hgraph with hd | hd
      · exact .inl hd
      · exact .inr (.token hd (tokenDefect_of_tokensOf hd))
    | ok r =>
      rw [hgraph] at h
      obtain ⟨g, _ | root⟩ := r
      · cases h
      · rcases dataOf_eq_error h with hd | ⟨id, part, text, htext, hd⟩
        · exact .inl hd
        · exact .inr (.scalar hgraph htext hd (scalarDefect_of_scalarOf? hd))

/-- A text whose document is a scalar without a value. -/
structure LoneScalar (s : String) (d : Defect) : Prop where
  printable : (normalizeBreaks s.toList).all isPrintable
  scalar : ∃ g root text, graphOf (tokensOf (normalizeBreaks s.toList)) = .ok (g, some root) ∧
    (g.node root).content = .scalar text ∧ scalarOf? (g.node root).tag text = some (.error d)

theorem LoneScalar.ofText_eq {s : String} {d : Defect} (h : LoneScalar s d) : ofText s = .error d := by
  obtain ⟨g, root, text, hgraph, htext, hd⟩ := h.scalar
  have hdata : dataOf g root = .error d := dataOf_scalar htext hd
  rw [ofText]
  simp only [h.printable, hgraph, Bool.not_true, Bool.false_eq_true, if_false]
  exact hdata

end Lockstep.Yaml
