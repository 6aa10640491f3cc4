import Mathlib.Logic.Function.Basic
import Lockstep.Proofs.DocumentReading
import Lockstep.Proofs.ModuleFiles

/-! The registry of modules over any sequence of loads. Loads may share mappings or not, and their references may
be bad, their files missing, and their modules may raise and change the registry themselves. The number in the name of
a module is never used twice, which is why taking a name away again leaves everything else in the registry. -/

namespace Lockstep

section Names

private theorem takeWhile_numbered (stem : String) (n : Nat) :
    (stem ++ "_" ++ toString n).toList.reverse.takeWhile Char.isDigit = (Nat.toDigits 10 n).reverse := by
  have hdigits : ∀ c ∈ (Nat.toDigits 10 n).reverse, c.isDigit := by
    intro c hc
    exact isDigit_toDigits n c (List.mem_reverse.1 hc)
  have hnumber : (toString n).toList = Nat.toDigits 10 n := String.toList_ofList
  have hunderscore : "_".toList = ['_'] := rfl
  rw [String.toList_append, String.toList_append, hnumber, hunderscore, List.reverse_append, List.reverse_append,
    List.reverse_singleton, List.singleton_append, List.takeWhile_append_of_pos hdigits,
    List.takeWhile_cons_of_neg (by decide), List.append_nil]

theorem moduleName_eq (p : Path) (n : Nat) :
    moduleName p n = "json_assertions_loaded_" ++ (p.stem ++ "_" ++ toString n) := by
  have happend (a b c d : String) : a ++ b ++ c ++ d = a ++ (b ++ c ++ d) := by
    rw [String.append_assoc, String.append_assoc, String.append_assoc]
  exact happend _ _ _ _

/-- A name tells the number in it, whatever digits and underscores the stem of the file ends in. -/
theorem moduleName_inj {p q : Path} {n k : Nat} (h : moduleName p n = moduleName q k) : n = k := by
  have hdigits : Nat.toDigits 10 n = Nat.toDigits 10 k := by
    rw [← List.reverse_inj, ← takeWhile_numbered ("json_assertions_loaded_" ++ p.stem),
      ← takeWhile_numbered ("json_assertions_loaded_" ++ q.stem)]
    exact congrArg (fun name => name.toList.reverse.takeWhile Char.isDigit) h
  exact toDigits_inj hdigits

end Names

/-- What is shared between loads: the state of the program, and mappings that loads can be given. -/
structure World where
  counter : Nat
  started : Nat
  registered : Registry
  mappings : Nat → List (Path × Module)

/-- A load of an attribute from a tree of files, with one of the mappings or with a mapping of its own. -/
structure Call where
  tree : FileTree
  reference : String
  mapping : Option Nat

namespace World

/-- The state in which a load with a mapping starts. -/
def state (w : World) (mapping : Option Nat) : LoadState :=
  ⟨w.counter, w.started, w.registered, match mapping with
    | some i => w.mappings i
    | none => []⟩

/-- The world in which a load with a mapping leaves its state. -/
def update (w : World) (mapping : Option Nat) (s : LoadState) : World :=
  ⟨s.counter, s.started, s.registered, match mapping with
    | some i => Function.update w.mappings i s.loaded
    | none => w.mappings⟩

private theorem update_state (w : World) (mapping : Option Nat) : w.update mapping (w.state mapping) = w := by
  cases mapping with
  | none => rfl
  | some i => exact congrArg (World.mk _ _ _) (Function.update_eq_self i w.mappings)

private theorem mappings_update (w : World) {mapping : Option Nat} {s : LoadState}
    (h : s.loaded = (w.state mapping).loaded) : (w.update mapping s).mappings = w.mappings := by
  cases mapping with
  | none => rfl
  | some i =>
    change Function.update w.mappings i s.loaded = w.mappings
    rw [h]
    exact Function.update_eq_self i w.mappings

/-- The mappings when a load with one of them has added a module. -/
def remember (w : World) (mapping : Option Nat) (p : Path) (m : Module) : Nat → List (Path × Module) :=
  match mapping with
  | some i => Function.update w.mappings i ((p, m) :: w.mappings i)
  | none => w.mappings

private theorem mappings_update_cons (w : World) {mapping : Option Nat} {s : LoadState} (p : Path) (m : Module)
    (h : s.loaded = (p, m) :: (w.state mapping).loaded) :
    (w.update mapping s).mappings = w.remember mapping p m := by
  cases mapping with
  | none => rfl
  | some i =>
    change Function.update w.mappings i s.loaded = _
    rw [h]
    rfl

end World

namespace Call

def load (c : Call) : Load Attribute :=
  match c.mapping with
  | some _ => loadAttribute c.tree c.reference
  | none => alone (loadAttribute c.tree c.reference)

/-- What a call answers, and the world after it. -/
def run (c : Call) (w : World) : Except Fault Attribute × World :=
  let (result, s) := c.load.run (w.state c.mapping)
  (result, w.update c.mapping s)

def course (c : Call) (w : World) (p : Path) : Course := (w.state c.mapping).course c.tree p

/-- The name that a call hands to the importer, if it comes to that. -/
def handed? (c : Call) (w : World) : Option String :=
  match resolveReference c.tree c.reference with
  | .error _ => none
  | .ok (p, _) => match c.course w p with
    | .reused _ => none
    | _ => some (moduleName p w.counter)

/-- The module that a call executes, if it comes to that. -/
def body? (c : Call) (w : World) : Option Script.Source :=
  match resolveReference c.tree c.reference with
  | .error _ => none
  | .ok (p, _) => match (w.state c.mapping).loaded.lookup p with
    | some _ => none
    | none => (findSource c.tree p).toOption

/-- The path and the module whose body a call runs to its end, if it does. -/
def completed? (c : Call) (w : World) : Option (Path × Module) :=
  match resolveReference c.tree c.reference with
  | .error _ => none
  | .ok (p, _) => match c.course w p with
    | .completed m _ => some (p, m)
    | _ => none

/-- The path and the module that a call takes its attribute from, if it comes to that. -/
def found? (c : Call) (w : World) : Option (Path × Module) :=
  match resolveReference c.tree c.reference with
  | .error _ => none
  | .ok (p, _) => (c.course w p).module.toOption.map fun m => (p, m)

theorem run_eq (c : Call) (w : World) :
    c.run w = match resolveReference c.tree c.reference with
      | .error fault => (.error fault, w)
      | .ok (p, name) => ((c.course w p).module.bind fun m => m.attribute p name,
          w.update c.mapping ((w.state c.mapping).after p (c.course w p))) := by
  have hload : c.run w = (((loadAttribute c.tree c.reference).run (w.state c.mapping)).1,
      w.update c.mapping ((loadAttribute c.tree c.reference).run (w.state c.mapping)).2) := by
    obtain ⟨tree, reference, mapping⟩ := c
    cases mapping with
    | some i => rfl
    | none =>
      rw [run, load]
      dsimp only
      rw [run_alone]
      rfl
  rw [hload, run_loadAttribute]
  cases resolveReference c.tree c.reference with
  | error fault => exact congrArg (Prod.mk _) (w.update_state c.mapping)
  | ok target => rfl

end Call

/-- Mappings in which a path stands once. -/
def World.Tidy (w : World) : Prop := ∀ i, ((w.mappings i).map (·.1)).Nodup

section Step
variable {w : World} {c : Call}

theorem World.Tidy.remember {mapping : Option Nat} {p : Path} {m : Module} (hw : w.Tidy)
    (h : (w.state mapping).loaded.lookup p = none) (i : Nat) : ((w.remember mapping p m i).map (·.1)).Nodup := by
  cases mapping with
  | none => exact hw i
  | some j =>
    by_cases hij : i = j
    · rw [hij, World.remember, Function.update_self, List.map_cons, List.nodup_cons]
      refine ⟨?_, hw j⟩
      intro hp
      obtain ⟨entry, hentry, rfl⟩ := List.mem_map.1 hp
      have hother := List.lookup_eq_none_iff.1 h entry hentry
      simp at hother
    · rw [World.remember, Function.update_of_ne hij]
      exact hw i

/-- A call that runs no body to its end changes no mapping. -/
theorem Call.run_of_not_completed (h : c.completed? w = none) :
    (c.run w).2.mappings = w.mappings ∧ w.counter ≤ (c.run w).2.counter := by
  rw [Call.run_eq]
  unfold Call.completed? at h
  cases hr : resolveReference c.tree c.reference with
  | error fault => exact ⟨rfl, Nat.le_refl _⟩
  | ok target =>
    obtain ⟨p, name⟩ := target
    rw [hr] at h
    dsimp only at h ⊢
    cases hcourse : c.course w p with
    | reused m =>
      rw [LoadState.after, w.update_state]
      exact ⟨rfl, Nat.le_refl _⟩
    | absent fault => exact ⟨w.mappings_update rfl, Nat.le_succ _⟩
    | raised fault names => exact ⟨w.mappings_update rfl, Nat.le_succ _⟩
    | completed m names => rw [hcourse] at h; cases h

/-- A call that runs a body to its end has the module under the next name, and its mapping keeps it. -/
theorem Call.run_of_completed {p : Path} {m : Module} (h : c.completed? w = some (p, m)) :
    (c.run w).2.mappings = w.remember c.mapping p m ∧ (c.run w).2.counter = w.counter + 1 ∧
    m.name = moduleName p w.counter ∧ (w.state c.mapping).loaded.lookup p = none := by
  rw [Call.run_eq]
  unfold Call.completed? at h
  cases hr : resolveReference c.tree c.reference with
  | error fault => rw [hr] at h; cases h
  | ok target =>
    obtain ⟨q, name⟩ := target
    rw [hr] at h
    dsimp only at h ⊢
    cases hcourse : c.course w q with
    | completed m' names =>
      rw [hcourse] at h
      cases h
      obtain ⟨hname, hloaded⟩ := LoadState.course_eq_completed hcourse
      exact ⟨w.mappings_update_cons p m rfl, rfl, hname, hloaded⟩
    | _ => rw [hcourse] at h; cases h

/-- A call that executes nothing leaves the registry as it is. -/
theorem Call.registered_of_no_body (h : c.body? w = none) : (c.run w).2.registered = w.registered := by
  rw [Call.run_eq]
  unfold Call.body? at h
  cases hr : resolveReference c.tree c.reference with
  | error fault => rfl
  | ok target =>
    obtain ⟨p, name⟩ := target
    rw [hr] at h
    dsimp only at h ⊢
    rw [Call.course, LoadState.course]
    cases hl : (w.state c.mapping).loaded.lookup p with
    | some m => rfl
    | none =>
      rw [hl] at h
      dsimp only at h ⊢
      cases hs : findSource c.tree p with
      | error fault => rfl
      | ok source => rw [hs] at h; cases h

/-- A name that the body of a call does not touch, and that the next module could not have unless it is new, is
registered after the call if it was before, or if it is the name of the module that the call ran to its end. -/
theorem Call.mem_registered_run {x : String} (hnew : ∀ p, moduleName p w.counter = x → x ∉ w.registered)
    (hbody : ∀ source, c.body? w = some source → ¬ source.Touches x) :
    x ∈ (c.run w).2.registered ↔ x ∈ w.registered ∨ ∃ e, c.completed? w = some e ∧ e.2.name = x := by
  rw [Call.run_eq]
  unfold Call.completed?
  unfold Call.body? at hbody
  cases hr : resolveReference c.tree c.reference with
  | error fault => simp
  | ok target =>
    obtain ⟨p, name⟩ := target
    rw [hr] at hbody
    dsimp only at hbody ⊢
    rw [Call.course, LoadState.course]
    cases hl : (w.state c.mapping).loaded.lookup p with
    | some m => simp [LoadState.after, w.update_state]
    | none =>
      rw [hl] at hbody
      dsimp only at hbody ⊢
      cases hs : findSource c.tree p with
      | error fault =>
        have hsame : (w.update c.mapping
          { w.state c.mapping with counter := (w.state c.mapping).counter + 1 }).registered = w.registered := rfl
        simp [LoadState.after, hsame]
      | ok source =>
        rw [hs] at hbody
        have hname : x = moduleName p w.counter → x ∉ w.registered := fun h => hnew p h.symm
        have hmem : x ∈ (source.execute ((w.state c.mapping).registered.add
            (moduleName p (w.state c.mapping).counter))).2 ↔ x = moduleName p w.counter ∨ x ∈ w.registered :=
          (Script.Source.mem_executeFrom (hbody source rfl) [] _).trans Registry.mem_add
        dsimp only
        generalize source.execute ((w.state c.mapping).registered.add _) = executed at hmem ⊢
        obtain ⟨result, names⟩ := executed
        cases result with
        | error fault =>
          change x ∈ names.remove (moduleName p w.counter) ↔ _
          rw [Registry.mem_remove, hmem]
          simp only [reduceCtorEq, false_and, exists_false, or_false]
          exact ⟨fun h => h.1.resolve_left h.2, fun h => ⟨.inr h, fun heq => hname heq h⟩⟩
        | ok attributes =>
          change x ∈ names ↔ _
          rw [hmem, or_comm]
          simp only [Option.some.injEq, exists_eq_left', @eq_comm _ x]
          rfl

theorem World.Tidy.run (hw : w.Tidy) (c : Call) : (c.run w).2.Tidy := by
  intro i
  cases hc : c.completed? w with
  | none =>
    rw [(Call.run_of_not_completed hc).1]
    exact hw i
  | some completed =>
    obtain ⟨p, m⟩ := completed
    obtain ⟨hmappings, -, -, hloaded⟩ := Call.run_of_completed hc
    rw [hmappings]
    exact hw.remember hloaded i

/-- What a mapping holds it keeps. -/
theorem Call.lookup_run (c : Call) {i : Nat} {p : Path} {m : Module} (h : (w.mappings i).lookup p = some m) :
    ((c.run w).2.mappings i).lookup p = some m := by
  cases hc : c.completed? w with
  | none => rwa [(Call.run_of_not_completed hc).1]
  | some completed =>
    obtain ⟨q, m'⟩ := completed
    obtain ⟨hmappings, -, -, hloaded⟩ := Call.run_of_completed hc
    rw [hmappings]
    generalize c.mapping = mapping at hloaded
    cases mapping with
    | none => exact h
    | some j =>
      by_cases hij : i = j
      · have hpq : p ≠ q := by
          rintro rfl
          rw [hij] at h
          cases h.symm.trans hloaded
        rw [hij] at h ⊢
        rw [World.remember, Function.update_self, List.lookup_cons, beq_eq_false_iff_ne.2 hpq]
        exact h
      · rwa [World.remember, Function.update_of_ne hij]

/-- What a call takes its attribute from is in its mapping afterwards. -/
theorem Call.lookup_of_found {i : Nat} {p : Path} {m : Module} (hi : c.mapping = some i)
    (h : c.found? w = some (p, m)) : ((c.run w).2.mappings i).lookup p = some m := by
  obtain ⟨tree, reference, mapping⟩ := c
  cases hi
  rw [Call.run_eq]
  unfold Call.found? at h
  cases hr : resolveReference tree reference with
  | error fault => rw [hr] at h; cases h
  | ok target =>
    obtain ⟨q, _⟩ := target
    rw [hr] at h
    dsimp only [World.update] at h ⊢
    cases hm : (Call.course ⟨tree, reference, some i⟩ w q).module with
    | error fault => rw [hm] at h; cases h
    | ok m' =>
      rw [hm] at h
      cases h
      rw [Function.update_self]
      exact LoadState.lookup_after hm

/-- A call for a path that its mapping holds answers from there and changes nothing. -/
theorem Call.run_of_lookup {i : Nat} {p : Path} {name : String} {m : Module} (hi : c.mapping = some i)
    (hr : resolveReference c.tree c.reference = .ok (p, name)) (h : (w.mappings i).lookup p = some m) :
    c.run w = (m.attribute p name, w) ∧ c.completed? w = none ∧ c.handed? w = none := by
  have hcourse : c.course w p = .reused m := LoadState.course_of_lookup (by rw [hi]; exact h)
  refine ⟨?_, ?_, ?_⟩
  · rw [Call.run_eq, hr]
    dsimp only
    rw [hcourse, LoadState.after, w.update_state]
    rfl
  · simp only [Call.completed?, hr, hcourse]
  · simp only [Call.handed?, hr, hcourse]

/-- A call hands the name with the next number, and then the number is used up. -/
theorem Call.handed_eq {name : String} (h : c.handed? w = some name) :
    (c.run w).2.counter = w.counter + 1 ∧ ∃ p, name = moduleName p w.counter := by
  rw [Call.run_eq]
  unfold Call.handed? at h
  cases hr : resolveReference c.tree c.reference with
  | error fault => rw [hr] at h; cases h
  | ok target =>
    obtain ⟨p, _⟩ := target
    rw [hr] at h
    dsimp only at h ⊢
    cases hcourse : c.course w p with
    | reused m => rw [hcourse] at h; cases h
    | _ =>
      rw [hcourse] at h
      cases h
      exact ⟨rfl, p, rfl⟩

end Step

/-- Calls one after another, each with the world in which it is made. -/
def history (w : World) : List Call → List (World × Call)
  | [] => []
  | c :: calls => (w, c) :: history (c.run w).2 calls

/-- The world after calls. -/
def World.after (w : World) (calls : List Call) : World := calls.foldl (fun w c => (c.run w).2) w

section Runs
variable {w : World}

theorem World.Tidy.after (hw : w.Tidy) (calls : List Call) : (w.after calls).Tidy := by
  induction calls generalizing w with
  | nil => exact hw
  | cons c calls ih => exact ih (hw.run c)

private theorem lookup_of_mem_history {i : Nat} {p : Path} {m : Module} (h : (w.mappings i).lookup p = some m)
    (calls : List Call) : ∀ r ∈ history w calls, (r.1.mappings i).lookup p = some m := by
  induction calls generalizing w with
  | nil => exact List.forall_mem_nil _
  | cons c calls ih => exact List.forall_mem_cons.2 ⟨h, ih (c.lookup_run h)⟩

theorem Call.counter_le (c : Call) (w : World) : w.counter ≤ (c.run w).2.counter := by
  cases hc : c.completed? w with
  | none => exact (Call.run_of_not_completed hc).2
  | some completed =>
    obtain ⟨-, hcounter, -⟩ := Call.run_of_completed hc
    omega

/-- Names that are handed to the importer later have later numbers. -/
theorem number_of_handed (calls : List Call) : ∀ name ∈ (history w calls).filterMap fun r => r.2.handed? r.1,
    ∃ p n, w.counter ≤ n ∧ name = moduleName p n := by
  induction calls generalizing w with
  | nil => exact List.forall_mem_nil _
  | cons c calls ih =>
    have hcounter := c.counter_le w
    have hlater : ∀ name ∈ (history (c.run w).2 calls).filterMap fun r => r.2.handed? r.1,
        ∃ p n, w.counter ≤ n ∧ name = moduleName p n := by
      intro name hname
      obtain ⟨p, n, hn, heq⟩ := ih name hname
      exact ⟨p, n, by omega, heq⟩
    rw [history, List.filterMap_cons]
    cases hc : c.handed? w with
    | none => exact hlater
    | some name =>
      obtain ⟨-, p, heq⟩ := Call.handed_eq hc
      exact List.forall_mem_cons.2 ⟨⟨p, w.counter, Nat.le_refl _, heq⟩, hlater⟩

theorem nodup_handed (w : World) (calls : List Call) :
    ((history w calls).filterMap fun r => r.2.handed? r.1).Nodup := by
  induction calls generalizing w with
  | nil => exact List.nodup_nil
  | cons c calls ih =>
    rw [history, List.filterMap_cons]
    cases hc : c.handed? w with
    | none => exact ih (c.run w).2
    | some name =>
      refine List.nodup_cons.2 ⟨fun hname => ?_, ih (c.run w).2⟩
      obtain ⟨hcounter, p, heq⟩ := Call.handed_eq hc
      obtain ⟨q, n, hn, heq'⟩ := number_of_handed calls name hname
      have hnumber := moduleName_inj (heq.symm.trans heq')
      omega

/-- A later call for a path from which an earlier one with the same mapping had a module has that module, and
changes nothing. -/
def SharesModule (r r' : World × Call) : Prop :=
  ∀ i p m name, r.2.mapping = some i → r'.2.mapping = some i → r.2.found? r.1 = some (p, m) →
    resolveReference r'.2.tree r'.2.reference = .ok (p, name) →
    r'.2.run r'.1 = (m.attribute p name, r'.1) ∧ r'.2.completed? r'.1 = none

theorem pairwise_sharesModule (w : World) (calls : List Call) : (history w calls).Pairwise SharesModule := by
  induction calls generalizing w with
  | nil => exact .nil
  | cons c calls ih =>
    refine .cons (fun r hr i p m name hi hi' hfound htarget => ?_) (ih (c.run w).2)
    have hkept := lookup_of_mem_history (Call.lookup_of_found hi hfound) calls r hr
    obtain ⟨hrun, hcompleted, -⟩ := Call.run_of_lookup hi' htarget hkept
    exact ⟨hrun, hcompleted⟩

/-- What a call runs to its end with a mapping, by the path. -/
def completedIn? (i : Nat) (r : World × Call) : Option Path :=
  if r.2.mapping = some i then (r.2.completed? r.1).map (·.1) else none

private theorem Call.found_of_completed {c : Call} {e : Path × Module} (h : c.completed? w = some e) :
    c.found? w = some e ∧ ∃ name, resolveReference c.tree c.reference = .ok (e.1, name) := by
  unfold Call.completed? at h
  unfold Call.found?
  cases hr : resolveReference c.tree c.reference with
  | error fault => rw [hr] at h; cases h
  | ok target =>
    obtain ⟨p, name⟩ := target
    rw [hr] at h
    dsimp only at h ⊢
    cases hcourse : c.course w p with
    | completed m =>
      rw [hcourse] at h
      cases h
      exact ⟨rfl, name, rfl⟩
    | _ => rw [hcourse] at h; cases h

/-- With one mapping a path is run to its end once at most. -/
theorem nodup_completedIn (w : World) (i : Nat) (calls : List Call) :
    ((history w calls).filterMap (completedIn? i)).Nodup := by
  rw [List.Nodup, List.pairwise_filterMap]
  refine (pairwise_sharesModule w calls).imp ?_
  rintro r r' hshares p hp q hq rfl
  simp only [completedIn?, Option.ite_none_right_eq_some] at hp hq
  obtain ⟨⟨_, m⟩, hc, rfl⟩ := Option.map_eq_some_iff.1 hp.2
  obtain ⟨⟨_, m'⟩, hc', heq⟩ := Option.map_eq_some_iff.1 hq.2
  dsimp only at heq
  obtain ⟨name, htarget⟩ := (Call.found_of_completed hc').2
  cases (hshares i _ m name hp.1 hq.1 (Call.found_of_completed hc).1 (heq ▸ htarget)).2.symm.trans hc'

/-- If a module could have a name that is registered, then its number has been used. -/
def World.Numbered (w : World) (x : String) : Prop := ∀ p n, moduleName p n = x → x ∈ w.registered → n < w.counter

private theorem World.Numbered.mem_registered_run {x : String} (hx : w.Numbered x) {c : Call}
    (hbody : ∀ source, c.body? w = some source → ¬ source.Touches x) :
    (x ∈ (c.run w).2.registered ↔ x ∈ w.registered ∨ ∃ e, c.completed? w = some e ∧ e.2.name = x) ∧
      (c.run w).2.Numbered x := by
  have hmem := Call.mem_registered_run (fun p hp hmem => Nat.lt_irrefl _ (hx p _ hp hmem)) hbody
  refine ⟨hmem, fun p n hname hregistered => ?_⟩
  rcases hmem.1 hregistered with hold | ⟨⟨q, m⟩, hcompleted, hm⟩
  · exact Nat.lt_of_lt_of_le (hx p n hname hold) (c.counter_le w)
  · obtain ⟨-, hcounter, hnumber, -⟩ := Call.run_of_completed hcompleted
    have hn : n = w.counter := moduleName_inj (hname.trans (hm.symm.trans hnumber))
    omega

/-- A name that no body touches is registered after calls if it was before, or if it is the name of a module that one
of them ran to its end. -/
theorem World.Numbered.mem_registered_after {x : String} (hx : w.Numbered x) (calls : List Call)
    (hbodies : ∀ r ∈ history w calls, ∀ source, r.2.body? r.1 = some source → ¬ source.Touches x) :
    (x ∈ (w.after calls).registered ↔
      x ∈ w.registered ∨ ∃ r ∈ history w calls, ∃ e, r.2.completed? r.1 = some e ∧ e.2.name = x) ∧
    ∀ r ∈ history w calls, r.1.Numbered x := by
  induction calls generalizing w with
  | nil => exact ⟨by simp [World.after, history], List.forall_mem_nil _⟩
  | cons c calls ih =>
    obtain ⟨hbody, hrest⟩ := List.forall_mem_cons.1 hbodies
    obtain ⟨hrun, hnumbered⟩ := hx.mem_registered_run hbody
    obtain ⟨hafter, hhistory⟩ := ih hnumbered hrest
    refine ⟨hafter.trans ?_, List.forall_mem_cons.2 ⟨hx, hhistory⟩⟩
    rw [hrun, history]
    simp only [List.mem_cons, exists_eq_or_imp, or_assoc]

/-- A program and a host value that a command finds in one file come from one new module, which is executed once. -/
theorem exists_module_of_loadBoth {tree : FileTree} {first second n k : String} {p : Path} {program : Program}
    {host : Value} {s : LoadState} (hfirst : resolveReference tree first = .ok (p, n))
    (hsecond : resolveReference tree second = .ok (p, k))
    (hrun : (Command.loadBoth tree first second).run (w.state none) = (.ok (program, host), s)) :
    ∃ m names a, (w.state none).course tree p = .completed m names ∧ m.name = moduleName p w.counter ∧
      m.attributes.lookup n = some (.program program) ∧ m.attributes.lookup k = some a ∧ a.toValue = host ∧
      s.registered = names ∧ s.started = w.started + 1 := by
  rw [run_loadBoth tree _ hfirst hsecond] at hrun
  obtain ⟨hanswer, rfl⟩ := Prod.mk.inj hrun
  cases hm : ((w.state none).course tree p).module with
  | error fault => rw [hm] at hanswer; cases hanswer
  | ok m =>
    rw [hm] at hanswer
    obtain ⟨hprogram, a, ha, hhost⟩ := Module.programAndHost_eq_ok hanswer
    obtain ⟨names, hcourse⟩ := LoadState.completed_of_empty rfl hm
    obtain ⟨hname, -⟩ := LoadState.course_eq_completed hcourse
    rw [hcourse]
    exact ⟨m, names, a, rfl, hname, hprogram, ha, hhost, rfl, rfl⟩

end Runs

/-- No module is registered under a name that loads could make, and in every mapping a path stands once. -/
structure World.Fresh (w : World) : Prop where
  unnamed : ∀ name ∈ w.registered, ∀ rest, name ≠ "json_assertions_loaded_" ++ rest
  keys : w.Tidy

theorem World.Fresh.numbered {w : World} (hw : w.Fresh) (x : String) : w.Numbered x :=
  fun p n hname hregistered => absurd (hname.symm.trans (moduleName_eq p n)) (hw.unnamed x hregistered _)

/-- The registry stays consistent over any sequence of loads. Of the names that no body touches, those that are added
are the names of the modules whose bodies were run to their end, and no name is ever handed to the importer again. In
one mapping a path has one module, which every later load of the path answers from. -/
theorem registry_consistent {w : World} (hw : w.Fresh) (calls : List Call) :
    ((history w calls).filterMap fun r => r.2.handed? r.1).Nodup ∧
    (∀ x, (∀ r ∈ history w calls, ∀ source, r.2.body? r.1 = some source → ¬ source.Touches x) →
      (x ∈ (w.after calls).registered ↔
        x ∈ w.registered ∨ ∃ r ∈ history w calls, ∃ e, r.2.completed? r.1 = some e ∧ e.2.name = x) ∧
      ∀ r ∈ history w calls, r.2.completed? r.1 = none →
        (x ∈ (r.2.run r.1).2.registered ↔ x ∈ r.1.registered)) ∧
    (∀ r ∈ history w calls, r.2.body? r.1 = none → (r.2.run r.1).2.registered = r.1.registered) ∧
    (∀ r ∈ history w calls, r.2.completed? r.1 = none → (r.2.run r.1).2.mappings = r.1.mappings) ∧
    (∀ i, (((w.after calls).mappings i).map (·.1)).Nodup ∧ ((history w calls).filterMap (completedIn? i)).Nodup) ∧
    (history w calls).Pairwise SharesModule ∧
    ∀ (tree : FileTree) (first second n k : String) (p : Path) (program : Program) (host : Value) (s : LoadState),
      resolveReference tree first = .ok (p, n) → resolveReference tree second = .ok (p, k) →
      (Command.loadBoth tree first second).run ((w.after calls).state none) = (.ok (program, host), s) →
      ∃ m names a, ((w.after calls).state none).course tree p = .completed m names ∧
        m.name = moduleName p (w.after calls).counter ∧ m.attributes.lookup n = some (.program program) ∧
        m.attributes.lookup k = some a ∧ a.toValue = host ∧ s.registered = names ∧
        s.started = (w.after calls).started + 1 := by
  refine ⟨nodup_handed w calls, fun x hbodies => ?_, fun r _ hbody => Call.registered_of_no_body hbody,
    fun r _ hc => (Call.run_of_not_completed hc).1, fun i => ⟨(hw.keys.after calls) i, nodup_completedIn w i calls⟩,
    pairwise_sharesModule w calls, fun _ _ _ _ _ _ _ _ _ => exists_module_of_loadBoth⟩
  obtain ⟨hafter, hnumbered⟩ := (hw.numbered x).mem_registered_after calls hbodies
  refine ⟨hafter, fun r hr hc => ?_⟩
  rw [((hnumbered r hr).mem_registered_run (hbodies r hr)).1, hc]
  simp

private theorem fresh_json : World.Fresh ⟨1, 0, ["json"], fun _ => []⟩ := by
  refine ⟨?_, fun i => List.nodup_nil⟩
  intro name hname rest heq
  cases List.mem_singleton.1 hname
  have hlength : "json".length = "json_assertions_loaded_".length + rest.length := by
    rw [← String.length_append, ← heq]
  have hjson : "json".length = 4 := by decide
  have hprefix : "json_assertions_loaded_".length = 23 := by decide
  omega

private theorem moduleName_m : moduleName ⟨"/", ["home", "m.py"]⟩ 1 = "json_assertions_loaded_m_1" := by decide +kernel

private theorem endsWith_m : (Path.name ⟨"/", ["home", "m.py"]⟩).endsWith ".py" := by decide +kernel

theorem registry_consistent_twice :
    let p : Path := ⟨"/", ["home", "m.py"]⟩
    let tree : FileTree := { home := ⟨"/", ["home"]⟩, entries := [(p, .file [0x7b, 0x7d])] }
    let w : World := ⟨1, 0, ["json"], fun _ => []⟩
    let first : Call := ⟨tree, "m.py:PROGRAM", some 0⟩
    let second : Call := ⟨tree, "./x/../m.py:HOST", some 0⟩
    let m : Module := ⟨"json_assertions_loaded_m_1", []⟩
    let v := (first.run w).2
    w.Fresh ∧ first.found? w = some (p, m) ∧ second.run v = (m.attribute p "HOST", v) ∧
      ∀ x, x ∈ (w.after [first, second]).registered ↔ x = "json" ∨ x = m.name := by
  intro p tree w first second m v
  have hsource : findSource tree p = .ok [] := by
    have hentry : tree.entry? p = some (.file [0x7b, 0x7d]) := rfl
    have hsuffix : p.name.endsWith ".py" := endsWith_m
    have hread : Notation.sourceOfBytes? [0x7b, 0x7d] = some [] := rfl
    rw [findSource, hentry]
    simp only [hsuffix, if_true, hread]
  have hcourse : first.course w p = .completed m (w.registered.add m.name) := by
    have hloaded : (w.state (some 0)).loaded.lookup p = none := rfl
    rw [Call.course, LoadState.course, hloaded, hsource]
    exact congrArg (fun name => Course.completed ⟨name, []⟩ (w.registered.add name)) moduleName_m
  have hfirst : resolveReference tree "m.py:PROGRAM" = .ok (p, "PROGRAM") := rfl
  have hsecond : resolveReference tree "./x/../m.py:HOST" = .ok (p, "HOST") := rfl
  have hfound : first.found? w = some (p, m) := by
    simp only [Call.found?, first, hfirst]
    rw [hcourse]
    rfl
  have hcompleted : first.completed? w = some (p, m) := by
    simp only [Call.completed?, first, hfirst]
    rw [hcourse]
  obtain ⟨-, hregistered, -, -, -, hpairwise, -⟩ := @registry_consistent w fresh_json [first, second]
  have hshares : SharesModule (w, first) (v, second) :=
    (List.pairwise_cons.1 hpairwise).1 (v, second) (List.mem_singleton.2 rfl)
  obtain ⟨hrun, hagain⟩ := hshares 0 p m "HOST" rfl rfl hfound hsecond
  refine ⟨fresh_json, hfound, hrun, fun x => ?_⟩
  have huntouched : ∀ r ∈ history w [first, second], ∀ source, r.2.body? r.1 = some source → ¬ source.Touches x := by
    have hempty (name : String) (r : World × Call) (htree : r.2.tree = tree)
        (htarget : resolveReference r.2.tree r.2.reference = .ok (p, name)) (source : Script.Source)
        (hbody : r.2.body? r.1 = some source) : ¬ source.Touches x := by
      rw [Call.body?, htarget] at hbody
      dsimp only at hbody
      rw [htree, hsource] at hbody
      split at hbody <;> cases hbody
      simp [Script.Source.Touches]
    exact List.forall_mem_cons.2 ⟨hempty _ _ rfl hfirst, List.forall_mem_singleton.2 (hempty _ _ rfl hsecond)⟩
  rw [(hregistered x huntouched).1]
  simp only [history, List.mem_cons, exists_eq_or_imp, hcompleted, List.not_mem_nil]
  rw [hagain]
  simp [w, eq_comm]

/-- A body that registers a name and then raises leaves this name, although its own is taken away. -/
theorem registered_by_raising_body :
    let p : Path := ⟨"/", ["home", "m.py"]⟩
    let body : Value := .object [("lines", .list
      [.object [("register", .text "colorsys")], .object [("raise", .text "boom")]])]
    let tree : FileTree := { home := ⟨"/", ["home"]⟩, entries := [(p, .file (utf8Bytes body.canonicalText))] }
    let w : World := ⟨1, 0, ["json"], fun _ => []⟩
    let c : Call := ⟨tree, "m.py:PROGRAM", some 0⟩
    w.Fresh ∧ c.completed? w = none ∧ (c.run w).1 = .error (.moduleBody "boom") ∧
      (c.run w).2.registered = ["colorsys", "json"] := by
  intro p body tree w c
  have hread : Json.ofText? body.canonicalText = some body := by
    refine Json.ofText?_canonicalText (.singleton _ (.list ?_)) (.singleton _ (.list ?_))
    · simpa using ⟨.singleton _ (.text _), .singleton _ (.text _)⟩
    · simpa using ⟨.singleton _ (.text _ _), .singleton _ (.text _ _)⟩
  have hsource : findSource tree p = .ok [.register "colorsys", .raise "boom"] := by
    refine findSource_of_text rfl endsWith_m hread ?_
    rw [Notation.source?_lines]
    simp [Notation.line?_register, Notation.line?_raise]
  have hname : moduleName p (w.state c.mapping).counter = "json_assertions_loaded_m_1" := moduleName_m
  have htarget : resolveReference tree "m.py:PROGRAM" = .ok (p, "PROGRAM") := rfl
  have hcourse : c.course w p = .raised (.moduleBody "boom") ["colorsys", "json_assertions_loaded_m_1", "json"] := by
    have hloaded : (w.state (some 0)).loaded.lookup p = none := rfl
    rw [Call.course, LoadState.course, hloaded, hsource]
    dsimp only
    rw [hname]
    rfl
  refine ⟨fresh_json, ?_, ?_⟩
  · simp only [Call.completed?, c, htarget]
    rw [hcourse]
  · rw [Call.run_eq]
    simp only [c, htarget]
    rw [hcourse]
    refine ⟨rfl, ?_⟩
    change Registry.remove (moduleName p (w.state c.mapping).counter) _ = _
    rw [hname]
    rfl

end Lockstep
