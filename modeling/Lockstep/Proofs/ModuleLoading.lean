import Lockstep.Command.Run

/-! What a load does. The module at a path is found again, or imported under the next name, and then it is
missing, raises, or is executed to its end. The answer and the state after the load are told by which of these
is the case and by the names that the module leaves registered, and no other fact about loads is needed elsewhere. -/

namespace Lockstep

namespace Registry
variable {x name : String} {names : Registry}

theorem mem_add : x ∈ names.add name ↔ x = name ∨ x ∈ names := List.mem_insert_iff

theorem mem_remove : x ∈ names.remove name ↔ x ∈ names ∧ x ≠ name := by simp [remove]

end Registry

/-- A module has a line that registers a name or takes it away. -/
def Script.Source.Touches (source : Script.Source) (x : String) : Prop := .register x ∈ source ∨ .unregister x ∈ source

/-- A name that no line touches is registered afterwards if it was before, also where a line raises. -/
theorem Script.Source.mem_executeFrom {source : Script.Source} {x : String} (h : ¬ source.Touches x)
    (attributes : List (String × Attribute)) (names : Registry) :
    x ∈ (source.executeFrom attributes names).2 ↔ x ∈ names := by
  induction source generalizing attributes names with
  | nil => rfl
  | cons line lines ih =>
    simp only [Touches, List.mem_cons, not_or] at h ih
    have hlines := ih ⟨h.1.2, h.2.2⟩
    cases line with
    | define name d =>
      rw [executeFrom]
      cases d.attribute names with
      | error fault => rfl
      | ok a => exact hlines _ _
    | register name =>
      rw [executeFrom, hlines, Registry.mem_add]
      exact or_iff_right fun heq => h.1.1 (heq ▸ rfl)
    | unregister name =>
      rw [executeFrom, hlines, Registry.mem_remove]
      exact and_iff_left fun heq => h.2.1 (heq ▸ rfl)
    | raise text => rfl

/-- How a load of the module at a path goes. -/
inductive Course where
  /-- It was loaded before. -/
  | reused (m : Module)
  /-- There is nothing to be executed. -/
  | absent (fault : Fault)
  /-- Its body raises and leaves these names registered. -/
  | raised (fault : Fault) (names : Registry)
  /-- Its body is executed to its end and leaves these names registered. -/
  | completed (m : Module) (names : Registry)

/-- The module that a load answers with. -/
def Course.module : Course → Except Fault Module
  | .reused m => .ok m
  | .absent fault => .error fault
  | .raised fault _ => .error fault
  | .completed m _ => .ok m

namespace LoadState

def course (s : LoadState) (tree : FileTree) (p : Path) : Course :=
  match s.loaded.lookup p with
  | some m => .reused m
  | none => match findSource tree p with
    | .error fault => .absent fault
    | .ok source => match source.execute (s.registered.add (moduleName p s.counter)) with
      | (.error fault, names) => .raised fault names
      | (.ok attributes, names) => .completed ⟨moduleName p s.counter, attributes⟩ names

/-- The state after a load of the module at a path. -/
def after (s : LoadState) (p : Path) : Course → LoadState
  | .reused _ => s
  | .absent _ => { s with counter := s.counter + 1 }
  | .raised _ names => ⟨s.counter + 1, s.started + 1, names.remove (moduleName p s.counter), s.loaded⟩
  | .completed m names => ⟨s.counter + 1, s.started + 1, names, (p, m) :: s.loaded⟩

end LoadState

section Runs
variable (tree : FileTree) (s : LoadState)

/-- One load after another: the second one starts from the state that the first one leaves, if that succeeds. -/
theorem run_bind {α β : Type} (x : Load α) (f : α → Load β) :
    (x >>= f).run s = match x.run s with
      | (.ok a, s') => (f a).run s'
      | (.error fault, s') => (.error fault, s') := by
  change (ExceptT.bindCont f (x.run s).1) (x.run s).2 = _
  obtain ⟨result, s'⟩ := x.run s
  cases result <;> rfl

theorem run_executeModule (name : String) (source : Script.Source) :
    (executeModule name source).run s = match source.execute (s.registered.add name) with
      | (.ok attributes, names) =>
        (.ok ⟨name, attributes⟩, { s with started := s.started + 1, registered := names })
      | (.error fault, names) =>
        (.error fault, { s with started := s.started + 1, registered := names.remove name }) := by
  have hmodify (f : LoadState → LoadState) : (modify f : Load Unit).run s = (.ok (), f s) := rfl
  have hget (t : LoadState) : (get : Load LoadState).run t = (.ok t, t) := rfl
  rw [executeModule, run_bind, hmodify]
  dsimp only
  rw [run_bind, hget]
  dsimp only
  obtain ⟨result, names⟩ := source.execute (s.registered.add name)
  cases result <;> rfl

theorem run_loadModule (p : Path) :
    (loadModule tree p).run s = ((s.course tree p).module, s.after p (s.course tree p)) := by
  have hget : (get : Load LoadState).run s = (.ok s, s) := rfl
  rw [loadModule, run_bind, hget, LoadState.course]
  dsimp only
  cases s.loaded.lookup p with
  | some m => rfl
  | none =>
    change ((importModule tree (moduleName p s.counter) p >>= fun m => _) : Load Module).run
      { s with counter := s.counter + 1 } = _
    rw [run_bind, importModule]
    cases findSource tree p with
    | error fault => rfl
    | ok source =>
      dsimp only
      rw [run_executeModule]
      obtain ⟨result, names⟩ := source.execute (s.registered.add (moduleName p s.counter))
      cases result <;> rfl

theorem run_loadAttribute (reference : String) :
    (loadAttribute tree reference).run s = match resolveReference tree reference with
      | .error fault => (.error fault, s)
      | .ok (p, name) =>
        ((s.course tree p).module.bind fun m => m.attribute p name, s.after p (s.course tree p)) := by
  rw [loadAttribute]
  cases resolveReference tree reference with
  | error fault => rfl
  | ok target =>
    obtain ⟨p, name⟩ := target
    dsimp only
    rw [run_bind, run_loadModule]
    cases (s.course tree p).module with
    | error fault => rfl
    | ok m =>
      dsimp only [Except.bind]
      cases m.attribute p name <;> rfl

/-- With a mapping of its own a load starts from an empty one, and gives the mapping of the state back. -/
theorem run_alone {α : Type} (load : Load α) :
    (alone load).run s = ((load.run { s with loaded := [] }).1,
      { (load.run { s with loaded := [] }).2 with loaded := s.loaded }) := by
  have hget : (get : Load LoadState).run s = (.ok s, s) := rfl
  have hlift : (ExceptT.lift load.run : Load (Except Fault α)).run { s with loaded := [] } =
      (.ok (load.run { s with loaded := [] }).1, (load.run { s with loaded := [] }).2) := rfl
  rw [alone, run_bind, hget]
  dsimp only
  rw [run_bind]
  change (ExceptT.lift load.run >>= fun result => _ : Load α).run { s with loaded := [] } = _
  rw [run_bind, hlift]
  dsimp only
  cases (load.run { s with loaded := [] }).1 <;> rfl

namespace LoadState
variable {tree : FileTree} {s : LoadState} {p : Path} {m : Module}

/-- Everything that a load can come to: the module of its mapping, or a new one. -/
theorem course_cases (s : LoadState) (tree : FileTree) (p : Path) :
    (∃ m, s.course tree p = .reused m ∧ s.loaded.lookup p = some m) ∨
    s.loaded.lookup p = none ∧ ((∃ fault, s.course tree p = .absent fault) ∨
      (∃ fault names, s.course tree p = .raised fault names) ∨
      ∃ attributes names, s.course tree p = .completed ⟨moduleName p s.counter, attributes⟩ names) := by
  rw [course]
  cases s.loaded.lookup p with
  | some m => exact .inl ⟨m, rfl, rfl⟩
  | none =>
    refine .inr ⟨rfl, ?_⟩
    cases findSource tree p with
    | error fault => exact .inl ⟨fault, rfl⟩
    | ok source =>
      dsimp only
      obtain ⟨result, names⟩ := source.execute (s.registered.add (moduleName p s.counter))
      cases result with
      | error fault => exact .inr (.inl ⟨fault, names, rfl⟩)
      | ok attributes => exact .inr (.inr ⟨attributes, names, rfl⟩)

theorem course_eq_completed {names : Registry} (h : s.course tree p = .completed m names) :
    m.name = moduleName p s.counter ∧ s.loaded.lookup p = none := by
  rcases course_cases s tree p with ⟨m', hc, -⟩ | ⟨hl, ⟨fault, hc⟩ | ⟨fault, names, hc⟩ | ⟨attributes, names, hc⟩⟩ <;>
    cases hc.symm.trans h
  exact ⟨rfl, hl⟩

/-- What a load answers with is in the mapping afterwards. -/
theorem lookup_after (h : (s.course tree p).module = .ok m) :
    (s.after p (s.course tree p)).loaded.lookup p = some m := by
  rcases course_cases s tree p with ⟨m', hc, hl⟩ | ⟨hl, ⟨fault, hc⟩ | ⟨fault, names, hc⟩ | ⟨attributes, names, hc⟩⟩ <;>
    rw [hc] at h ⊢ <;> cases h
  · exact hl
  · exact List.lookup_cons_self

/-- A load that answers where its mapping is empty has run the module to its end. -/
theorem completed_of_empty (hs : s.loaded = []) (h : (s.course tree p).module = .ok m) :
    ∃ names, s.course tree p = .completed m names := by
  rcases course_cases s tree p with ⟨m', hc, hl⟩ | ⟨hl, ⟨fault, hc⟩ | ⟨fault, names, hc⟩ | ⟨attributes, names, hc⟩⟩ <;>
    rw [hc] at h ⊢ <;> cases h
  · rw [hs] at hl
    cases hl
  · exact ⟨names, rfl⟩

/-- A module that a mapping holds is found there, whatever has become of its file. -/
theorem course_of_lookup (h : s.loaded.lookup p = some m) : s.course tree p = .reused m := by
  rw [course, h]

end LoadState

/-- The program and the host value under two names of one module. -/
def Module.programAndHost (m : Module) (p : Path) (reference n k : String) : Except Fault (Program × Value) := do
  match ← m.attribute p n with
  | .value v => throw (.referenceNotProgram reference v.typeName)
  | .program program => do
    let host ← m.attribute p k
    pure (program, host.toValue)

theorem Module.attribute_eq_ok {m : Module} {p : Path} {name : String} {a : Attribute}
    (h : m.attribute p name = .ok a) : m.attributes.lookup name = some a := by
  unfold Module.attribute at h
  cases hl : m.attributes.lookup name with
  | none => rw [hl] at h; cases h
  | some a' => rw [hl] at h; cases h; rfl

theorem Module.programAndHost_eq_ok {m : Module} {p : Path} {reference n k : String} {program : Program}
    {host : Value} (h : m.programAndHost p reference n k = .ok (program, host)) :
    m.attributes.lookup n = some (.program program) ∧ ∃ a, m.attributes.lookup k = some a ∧ a.toValue = host := by
  unfold programAndHost at h
  cases hn : m.attribute p n with
  | error fault => rw [hn] at h; cases h
  | ok a => cases a with
    | value v => rw [hn] at h; cases h
    | program program' =>
      rw [hn] at h
      dsimp only [Bind.bind, Except.bind] at h
      cases hk : m.attribute p k with
      | error fault => rw [hk] at h; cases h
      | ok a =>
        rw [hk] at h
        cases h
        exact ⟨attribute_eq_ok hn, a, attribute_eq_ok hk, rfl⟩

/-- Where the program and the host value of a command are in one file, they come from one module, which is loaded
once. -/
theorem run_loadBoth {first second n k : String} {p : Path} (hfirst : resolveReference tree first = .ok (p, n))
    (hsecond : resolveReference tree second = .ok (p, k)) :
    (Command.loadBoth tree first second).run s =
      ((s.course tree p).module.bind fun m => m.programAndHost p first n k, s.after p (s.course tree p)) := by
  rw [Command.loadBoth, run_bind, run_loadAttribute, hfirst]
  dsimp only
  cases hm : (s.course tree p).module with
  | error fault => rfl
  | ok m =>
    dsimp only [Except.bind]
    rw [Module.programAndHost]
    cases m.attribute p n with
    | error fault => rfl
    | ok a => cases a with
      | value v => rfl
      | program program =>
        change ((loadAttribute tree second >>= fun host => _ : Load (Program × Value)).run _) = _
        rw [run_bind, run_loadAttribute, hsecond]
        dsimp only
        rw [LoadState.course_of_lookup (LoadState.lookup_after hm)]
        simp only [Course.module, Except.bind, LoadState.after]
        cases m.attribute p k <;> rfl

end Runs

end Lockstep
