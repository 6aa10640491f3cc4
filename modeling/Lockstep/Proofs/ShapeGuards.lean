import Lockstep.Proofs.RaisingContinuations

/-! Shapes only guard. A shape that is declared for a descent can end a run, where the projected value is not an
instance of it or cannot be tested, and does nothing else: a run that no shape ends is the run of the same program
without shapes. -/

namespace Lockstep

namespace Program

mutual

/-- The program without its shapes, also in what its continuations make. -/
def erase : Program → Program
  | .done result => .done result
  | .descend segment project _ next => .descend segment project none fun host => eraseNext (next host)
  | .check predicate next => .check predicate (erase next)
  | .terminate => .terminate
  | .all members => .all (eraseAll members)
  | .blank => .blank
  | .stray instruction => .stray instruction
  | .foreign v => .foreign v

def eraseNext : Except Fault Program → Except Fault Program
  | .ok p => .ok (erase p)
  | .error fault => .error fault

def eraseAll : List Program → List Program
  | [] => []
  | p :: ps => erase p :: eraseAll ps

end

section Continued
variable {k : Value → Except Fault Program}

theorem bindAll_erase {ps : List Program}
    (h : ∀ p ∈ ps, (erase p).bind (fun result => eraseNext (k result)) = eraseNext (p.bind k)) :
    bindAll (fun result => eraseNext (k result)) (eraseAll ps) = (bindAll k ps).map eraseAll := by
  induction ps with
  | nil => rfl
  | cons p ps ih =>
    obtain ⟨hp, hps⟩ := List.forall_mem_cons.1 h
    rw [eraseAll, bindAll, bindAll, hp, ih hps]
    cases p.bind k with
    | error fault => rfl
    | ok q => cases bindAll k ps <;> rfl

/-- Continuing keeps the shapes of the program and adds those of what the continuation makes. -/
theorem bind_erase (p : Program) :
    (erase p).bind (fun result => eraseNext (k result)) = eraseNext (p.bind k) := by
  induction p with
  | done result => rfl
  | descend segment project shape next ih =>
    have hnext (host : Value) : bindNext (fun result => eraseNext (k result)) (eraseNext (next host)) =
        eraseNext (bindNext k (next host)) := by
      cases hn : next host with
      | error fault => rfl
      | ok p => exact ih host p hn
    simp only [erase, bind, hnext, eraseNext]
  | check predicate next ih =>
    rw [erase, bind, ih, bind]
    cases next.bind k <;> rfl
  | all members ih =>
    rw [erase, bind, bindAll_erase ih, bind]
    cases bindAll k members <;> rfl
  | _ => rfl

end Continued

end Program

/-- The fault says that a value is not of the declared shape. -/
def Fault.IsShapeMismatch : Fault → Prop
  | .shapeMismatch .. => True
  | _ => False

/-- What a fault of a run comes from. -/
inductive Origin where
  /-- A projected value is not an instance of the shape that its descent declares. -/
  | shape
  /-- The test of a declared shape raises. -/
  | test
  /-- A function of the program raises: a projection, a continuation or a predicate. -/
  | function
  /-- The position of a descent is too long to be written. -/
  | position
  /-- The program has a node that no run supports. -/
  | node

/-- A shape that is declared ends the run. -/
def Origin.IsGuard : Origin → Prop
  | .shape => True
  | .test => True
  | _ => False

/-- The first fault of a program from the node at a trail on, left to right and depth first. In a descent the lookup
comes first, then the projection, then the shape, then the continuation and what it makes. -/
inductive FirstFault (root : String) : Trail → Value → Value → Program → Origin → Fault → Prop where
  | position {trail : Trail} {node host : Value} {segment : Segment} {project : Value → Except Fault Value}
      {shape : Option Shape} {next : Value → Except Fault Program}
      (missed : node.lookup segment = none) (long : ¬ segment.isWritable) :
      FirstFault root trail node host (.descend segment project shape next) .position .digitLimit
  | projection {trail : Trail} {node host part : Value} {segment : Segment} {project : Value → Except Fault Value}
      {shape : Option Shape} {next : Value → Except Fault Program} {fault : Fault}
      (matched : node.lookup segment = some part) (raised : project host = .error fault) :
      FirstFault root trail node host (.descend segment project shape next) .function fault
  | test {trail : Trail} {node host part v : Value} {segment : Segment} {project : Value → Except Fault Value}
      {declared : Shape} {next : Value → Except Fault Program} {fault : Fault}
      (matched : node.lookup segment = some part) (returned : project host = .ok v)
      (untested : declared.test v = .error fault) :
      FirstFault root trail node host (.descend segment project (some declared) next) .test fault
  | shape {trail : Trail} {node host part v : Value} {segment : Segment} {project : Value → Except Fault Value}
      {declared : Shape} {next : Value → Except Fault Program}
      (matched : node.lookup segment = some part) (returned : project host = .ok v)
      (misfits : declared.test v = .ok false) :
      FirstFault root trail node host (.descend segment project (some declared) next) .shape
        (.shapeMismatch (Trail.label root (segment :: trail)) v.typeName declared.name)
  | continuation {trail : Trail} {node host part v : Value} {segment : Segment}
      {project : Value → Except Fault Value} {shape : Option Shape} {next : Value → Except Fault Program}
      {fault : Fault} (matched : node.lookup segment = some part) (returned : project host = .ok v)
      (fits : ∀ declared ∈ shape, declared.test v = .ok true) (raised : next v = .error fault) :
      FirstFault root trail node host (.descend segment project shape next) .function fault
  | behind {trail : Trail} {node host part v : Value} {segment : Segment} {project : Value → Except Fault Value}
      {shape : Option Shape} {next : Value → Except Fault Program} {p : Program} {origin : Origin} {fault : Fault}
      (matched : node.lookup segment = some part) (returned : project host = .ok v)
      (fits : ∀ declared ∈ shape, declared.test v = .ok true) (made : next v = .ok p)
      (first : FirstFault root (segment :: trail) part v p origin fault) :
      FirstFault root trail node host (.descend segment project shape next) origin fault
  | predicate {trail : Trail} {node host : Value} {predicate : Value → Except Fault (Option String)}
      {next : Program} {fault : Fault} (raised : predicate node = .error fault) :
      FirstFault root trail node host (.check predicate next) .function fault
  | checked {trail : Trail} {node host : Value} {predicate : Value → Except Fault (Option String)}
      {next : Program} {origin : Origin} {fault : Fault} (accepted : predicate node = .ok none)
      (first : FirstFault root trail node host next origin fault) :
      FirstFault root trail node host (.check predicate next) origin fault
  | head {trail : Trail} {node host : Value} {p : Program} {ps : List Program} {origin : Origin} {fault : Fault}
      (first : FirstFault root trail node host p origin fault) :
      FirstFault root trail node host (.all (p :: ps)) origin fault
  | tail {trail : Trail} {node host : Value} {p : Program} {ps : List Program} {origin : Origin} {fault : Fault}
      (quiet : (p.walk node host (Trail.label root trail)).fault? = none)
      (first : FirstFault root trail node host (.all ps) origin fault) :
      FirstFault root trail node host (.all (p :: ps)) origin fault
  | blank {trail : Trail} {node host : Value} :
      FirstFault root trail node host .blank .node (.unsupportedNode "Program")
  | stray {trail : Trail} {node host instruction : Value} :
      FirstFault root trail node host (.stray instruction) .node (.unsupportedInstruction instruction.typeName)
  | foreign {trail : Trail} {node host v : Value} :
      FirstFault root trail node host (.foreign v) .node (.unsupportedNode v.typeName)

namespace FirstFault
variable {root : String} {trail : Trail} {node host : Value} {p : Program} {ps : List Program} {origin : Origin}
  {fault : Fault}

/-- A shape that ends a run is that of a descent to a place of the document, and the fault names this place. -/
theorem of_shape {document : Value} (h : FirstFault root trail node host p .shape fault)
    (hnode : document.follow trail = some node) :
    ∃ (target : Trail) (part v : Value) (declared : Shape), document.follow target = some part ∧
      declared.test v = .ok false ∧ fault = .shapeMismatch (Trail.label root target) v.typeName declared.name := by
  generalize horigin : Origin.shape = origin at h
  induction h with
  | @shape trail _ _ part v segment _ declared _ matched _ misfits =>
    refine ⟨segment :: trail, part, v, declared, ?_, misfits, rfl⟩
    rw [Value.follow, hnode]
    exact matched
  | behind matched _ _ _ _ ih =>
    refine ih ?_ horigin
    rw [Value.follow, hnode]
    exact matched
  | checked _ _ ih => exact ih hnode horigin
  | head _ ih => exact ih hnode horigin
  | tail _ _ ih => exact ih hnode horigin
  | _ => cases horigin

/-- Neither a position that is too long nor a node that no run supports is a mismatch. -/
theorem function_or_test (h : FirstFault root trail node host p origin fault) (hmismatch : fault.IsShapeMismatch)
    (hshape : origin ≠ .shape) : origin = .function ∨ origin = .test := by
  induction h with
  | position => cases hmismatch
  | test => exact .inr rfl
  | shape => exact absurd rfl hshape
  | projection => exact .inl rfl
  | continuation => exact .inl rfl
  | predicate => exact .inl rfl
  | behind _ _ _ _ _ ih => exact ih hmismatch hshape
  | checked _ _ ih => exact ih hmismatch hshape
  | head _ ih => exact ih hmismatch hshape
  | tail _ _ ih => exact ih hmismatch hshape
  | _ => cases hmismatch

end FirstFault

namespace Program

variable {root : String} {trail : Trail} {node host : Value} {p : Program} {origin : Origin} {fault : Fault}

/-- A run raises the first fault. -/
theorem fault?_of_firstFault (h : FirstFault root trail node host p origin fault) :
    (walk node host (Trail.label root trail) p).fault? = some fault := by
  induction h with
  | position missed long =>
    simp only [walk, Value.find_eq_error_iff.2 ⟨missed, long, rfl⟩]
    rfl
  | projection matched raised =>
    simp only [walk, Value.find_eq_some_iff.2 matched, projected_of_error raised]
    rfl
  | test matched returned untested =>
    simp only [walk, Value.find_eq_some_iff.2 matched, projected_of_untested returned untested]
    rfl
  | shape matched returned misfits =>
    simp only [walk, Value.find_eq_some_iff.2 matched, projected_of_misfit returned misfits]
    rfl
  | continuation matched returned fits raised =>
    simp only [walk, Value.find_eq_some_iff.2 matched, projected_of_fits returned fits, raised]
    rfl
  | behind matched returned fits made _ ih =>
    simp only [walk, Value.find_eq_some_iff.2 matched, projected_of_fits returned fits, made]
    exact ih
  | predicate raised =>
    simp only [walk, raised]
    rfl
  | checked accepted _ ih =>
    simp only [walk, accepted]
    exact ih
  | head _ ih =>
    rw [walk, walkAll, Findings.fault?_append, ih]
    rfl
  | tail quiet _ ih =>
    rw [walk, walkAll, Findings.fault?_append, quiet]
    exact ih
  | _ => rfl

private theorem firstFault_of_fault?_walkAll {ps : List Program}
    (h : ∀ p ∈ ps, (walk node host (Trail.label root trail) p).fault? = some fault →
      ∃ origin, FirstFault root trail node host p origin fault)
    (hps : (walkAll node host (Trail.label root trail) ps).fault? = some fault) :
    ∃ origin, FirstFault root trail node host (.all ps) origin fault := by
  induction ps with
  | nil => cases hps
  | cons p ps ih =>
    obtain ⟨hp, hrest⟩ := List.forall_mem_cons.1 h
    rw [walkAll, Findings.fault?_append, Option.or_eq_some_iff] at hps
    rcases hps with hraised | ⟨hquiet, hps⟩
    · obtain ⟨origin, hfirst⟩ := hp hraised
      exact ⟨origin, .head hfirst⟩
    · obtain ⟨origin, hfirst⟩ := ih hrest hps
      exact ⟨origin, .tail hquiet hfirst⟩

/-- Whatever a run raises is the first fault of its program. -/
theorem firstFault_of_fault? (p : Program) {trail : Trail} {node host : Value}
    (h : (walk node host (Trail.label root trail) p).fault? = some fault) :
    ∃ origin, FirstFault root trail node host p origin fault := by
  induction p generalizing trail node host with
  | done result => cases h
  | terminate => cases h
  | descend segment project shape next ih =>
    rw [walk] at h
    rcases hl : node.find segment with raised | _ | part
    · simp only [hl] at h
      cases h
      obtain ⟨missed, long, rfl⟩ := Value.find_eq_error_iff.1 hl
      exact ⟨.position, .position missed long⟩
    · simp only [hl] at h
      cases h
    · simp only [hl] at h
      rw [Value.find_eq_some_iff] at hl
      rcases projected_cases project shape host with
        ⟨raised, hv⟩ | ⟨v, declared, raised, hv, rfl, ht⟩ | ⟨v, declared, hv, rfl, ht⟩ | ⟨v, hv, ht⟩
      · rw [projected_of_error hv] at h
        cases h
        exact ⟨.function, .projection hl hv⟩
      · rw [projected_of_untested hv ht] at h
        cases h
        exact ⟨.test, .test hl hv ht⟩
      · rw [projected_of_misfit hv ht] at h
        cases h
        exact ⟨.shape, .shape hl hv ht⟩
      · rw [projected_of_fits hv ht] at h
        cases hn : next v with
        | error raised =>
          simp only [hn] at h
          cases h
          exact ⟨.function, .continuation hl hv ht hn⟩
        | ok p =>
          simp only [hn] at h
          have hbehind : (walk part v (Trail.label root (segment :: trail)) p).fault? = some fault := h
          obtain ⟨origin, hfirst⟩ := ih v p hn hbehind
          exact ⟨origin, .behind hl hv ht hn hfirst⟩
  | check predicate next ih =>
    rw [walk] at h
    cases hm : predicate node with
    | error raised =>
      rw [hm] at h
      cases h
      exact ⟨.function, .predicate hm⟩
    | ok verdict => cases verdict with
      | some message => rw [hm] at h; cases h
      | none =>
        rw [hm] at h
        obtain ⟨origin, hfirst⟩ := ih h
        exact ⟨origin, .checked hm hfirst⟩
  | all members ih => exact firstFault_of_fault?_walkAll (fun p hp => ih p hp) h
  | blank => cases h; exact ⟨.node, .blank⟩
  | stray instruction => cases h; exact ⟨.node, .stray⟩
  | foreign v => cases h; exact ⟨.node, .foreign⟩

/-- A program has one first fault, of one origin. -/
theorem firstFault_unique {other : Origin} {fault' : Fault} (h : FirstFault root trail node host p origin fault)
    (h' : FirstFault root trail node host p other fault') : origin = other ∧ fault = fault' := by
  -- Lookup, projection, shape, continuation and predicate have one result each, which only one case allows.
  induction h with
  | position missed long => cases h' <;> simp_all
  | projection matched raised => cases h' <;> simp_all
  | test matched returned untested => cases h' <;> simp_all
  | shape matched returned misfits => cases h' <;> simp_all
  | continuation matched returned fits raised => cases h' <;> simp_all
  | behind matched returned fits made _ ih => cases h' <;> simp_all
  | predicate raised => cases h' <;> simp_all
  | checked accepted _ ih => cases h' <;> simp_all
  | head first ih => cases h' with
    | head first' => exact ih first'
    | tail quiet _ => cases quiet.symm.trans (fault?_of_firstFault first)
  | tail quiet _ ih => cases h' with
    | head first' => cases quiet.symm.trans (fault?_of_firstFault first')
    | tail _ first' => exact ih first'
  | _ => cases h'; exact ⟨rfl, rfl⟩

private theorem walkAll_erase {ps : List Program}
    (h : ∀ p ∈ ps, (∀ origin fault, origin.IsGuard → ¬ FirstFault root trail node host p origin fault) →
      walk node host (Trail.label root trail) (erase p) = walk node host (Trail.label root trail) p)
    (hfits : ∀ origin fault, origin.IsGuard → ¬ FirstFault root trail node host (.all ps) origin fault) :
    walkAll node host (Trail.label root trail) (eraseAll ps) = walkAll node host (Trail.label root trail) ps := by
  induction ps with
  | nil => rfl
  | cons p ps ih =>
    obtain ⟨hp, hps⟩ := List.forall_mem_cons.1 h
    rw [eraseAll, walkAll, walkAll, hp fun origin fault hguard hfirst => hfits origin fault hguard (.head hfirst)]
    -- A shape of the other members comes first only if this member raises nothing.
    refine Findings.append_congr_right fun hquiet => ih hps fun origin fault hguard hfirst => ?_
    exact hfits origin fault hguard (.tail hquiet hfirst)

/-- A run without shapes is the run with them, unless a shape ends it. -/
theorem walk_erase (p : Program) {trail : Trail} {node host : Value}
    (hfits : ∀ origin fault, origin.IsGuard → ¬ FirstFault root trail node host p origin fault) :
    walk node host (Trail.label root trail) (erase p) = walk node host (Trail.label root trail) p := by
  induction p generalizing trail node host with
  | descend segment project shape next ih =>
    rw [erase, walk, walk]
    rcases hl : node.find segment with fault | _ | part
    · rfl
    · rfl
    · rw [Value.find_eq_some_iff] at hl
      rcases projected_cases project shape host with
        ⟨raised, hv⟩ | ⟨v, declared, raised, hv, rfl, ht⟩ | ⟨v, declared, hv, rfl, ht⟩ | ⟨v, hv, ht⟩
      · simp only [projected_of_error hv]
      · exact absurd (.test hl hv ht) (hfits .test _ trivial)
      · exact absurd (.shape hl hv ht) (hfits .shape _ trivial)
      · simp only [projected_none, hv, projected_of_fits hv ht]
        cases hn : next v with
        | error fault => rfl
        | ok p =>
          exact ih v p hn fun origin fault hguard hfirst => hfits origin fault hguard (.behind hl hv ht hn hfirst)
  | check predicate next ih =>
    rw [erase, walk, walk]
    cases hm : predicate node with
    | error fault => rfl
    | ok verdict => cases verdict with
      | some message => rfl
      | none => exact ih fun origin fault hguard hfirst => hfits origin fault hguard (.checked hm hfirst)
  | all members ih =>
    rw [erase, walk, walk]
    exact walkAll_erase (fun p hp => ih p hp) hfits
  | _ => rfl

end Program

section Runs
variable {options : RunOptions} {program : Program} {document host : Value}

/-- A run raises exactly what comes first. -/
theorem messages_eq_error_iff {fault : Fault} :
    (interpret options program document host).messages options = .error fault ↔
      ∃ origin, FirstFault options.rootLabel [] document host program origin fault := by
  have hraises : (interpret options program document host).messages options = .error fault ↔
      (program.walk document host (Trail.label options.rootLabel [])).fault? = some fault := by
    rw [Report.messages_eq_error, interpret_eq_walk]
    rfl
  rw [hraises]
  exact ⟨program.firstFault_of_fault?, fun ⟨_, h⟩ => Program.fault?_of_firstFault h⟩

/-- Where no shape comes first the run without shapes answers alike. -/
theorem messages_erase
    (h : ∀ origin fault, origin.IsGuard → ¬ FirstFault options.rootLabel [] document host program origin fault) :
    (interpret options program.erase document host).messages options =
      (interpret options program document host).messages options := by
  have hwalk := program.walk_erase h
  simp only [interpret_eq_walk]
  exact congrArg (Report.messages options) hwalk

/-- What comes first and is no shape's doing is raised without shapes, too. -/
theorem FirstFault.messages_erase {origin : Origin} {fault : Fault}
    (h : FirstFault options.rootLabel [] document host program origin fault) (horigin : ¬ origin.IsGuard) :
    (∀ other fault', other.IsGuard → ¬ FirstFault options.rootLabel [] document host program other fault') ∧
      (interpret options program.erase document host).messages options = .error fault := by
  have hguard (other : Origin) (fault' : Fault) (hother : other.IsGuard)
      (h' : FirstFault options.rootLabel [] document host program other fault') : False :=
    horigin ((Program.firstFault_unique h h').1 ▸ hother)
  exact ⟨hguard, (Lockstep.messages_erase hguard).trans (messages_eq_error_iff.2 ⟨origin, h⟩)⟩

/-- A mismatch names the place that the descent leads to. -/
theorem FirstFault.messages_of_shape {fault : Fault}
    (h : FirstFault options.rootLabel [] document host program .shape fault) :
    (interpret options program document host).messages options = .error fault ∧ fault.IsShapeMismatch ∧
      ∃ (target : Trail) (part v : Value) (declared : Shape), document.follow target = some part ∧
        declared.test v = .ok false ∧ fault.message? = some (Trail.label options.rootLabel target ++
          ": projection produced " ++ v.typeName ++ ", expected " ++ declared.name) := by
  have hrun : (interpret options program document host).messages options = .error fault :=
    messages_eq_error_iff.2 ⟨.shape, h⟩
  obtain ⟨target, part, v, declared, hpart, ht, rfl⟩ := h.of_shape rfl
  exact ⟨hrun, trivial, target, part, v, declared, hpart, ht, rfl⟩

end Runs

/-- Shapes only guard. A run raises exactly what comes first, left to right and depth first, and unless that is a
shape that ends the run, the run without shapes gives the same. Mismatches are raised by shapes, which name the place
that their descent leads to, and by functions and tests that raise one of their own. -/
theorem shapes_only_guard (options : RunOptions) (program : Program) (document host : Value) :
    let run := (interpret options program document host).messages options
    let bare := (interpret options program.erase document host).messages options
    let First := FirstFault options.rootLabel [] document host program
    (∀ texts, run = .ok texts → bare = .ok texts) ∧
    (∀ fault, run = .error fault → ¬ fault.IsShapeMismatch → First .test fault ∨ bare = .error fault) ∧
    (∀ fault, run = .error fault ↔ ∃ origin, First origin fault) ∧
    (∀ origin fault, First origin fault → ¬ origin.IsGuard →
      (∀ other fault', other.IsGuard → ¬ First other fault') ∧ bare = .error fault) ∧
    (∀ fault, First .shape fault → run = .error fault ∧ fault.IsShapeMismatch ∧
      ∃ (target : Trail) (part v : Value) (declared : Shape), document.follow target = some part ∧
        declared.test v = .ok false ∧ fault.message? = some (Trail.label options.rootLabel target ++
          ": projection produced " ++ v.typeName ++ ", expected " ++ declared.name)) ∧
    (∀ fault, (run = .error fault ∧ fault.IsShapeMismatch) ↔
      First .shape fault ∨ (First .function fault ∨ First .test fault) ∧ fault.IsShapeMismatch) ∧
    (∀ k, program.erase.bind (fun result => Program.eraseNext (k result)) = Program.eraseNext (program.bind k)) := by
  intro run bare First
  refine ⟨fun texts hok => ?_, fun fault herror hdiffers => ?_, fun fault => messages_eq_error_iff,
    fun origin fault h => h.messages_erase, fun fault h => h.messages_of_shape, fun fault => ⟨?_, ?_⟩,
    fun _ => program.bind_erase⟩
  · have hbare : bare = run := messages_erase fun origin fault _ h => by
      cases hok.symm.trans (messages_eq_error_iff.2 ⟨origin, h⟩)
    rw [hbare, hok]
  · obtain ⟨origin, h⟩ := messages_eq_error_iff.1 herror
    cases origin with
    | shape => exact absurd h.messages_of_shape.2.1 hdiffers
    | test => exact .inl h
    | _ => exact .inr (h.messages_erase id).2
  · rintro ⟨herror, hmismatch⟩
    obtain ⟨origin, h⟩ := messages_eq_error_iff.1 herror
    by_cases hshape : origin = .shape
    · exact .inl (hshape ▸ h)
    · rcases h.function_or_test hmismatch hshape with rfl | rfl
      · exact .inr ⟨.inl h, hmismatch⟩
      · exact .inr ⟨.inr h, hmismatch⟩
  · rintro (h | ⟨h | h, hmismatch⟩)
    · exact ⟨h.messages_of_shape.1, h.messages_of_shape.2.1⟩
    · exact ⟨messages_eq_error_iff.2 ⟨.function, h⟩, hmismatch⟩
    · exact ⟨messages_eq_error_iff.2 ⟨.test, h⟩, hmismatch⟩

theorem shapes_only_guard_clash :
    let item (shape : String) : Program :=
      .descend (.index 0) .ok (some (.ofClass shape)) fun host => .ok (.done host)
    let document : Value := .list [.int 1]
    let clash : Program := .all [item "str", item "int"]
    let mismatch : Fault := .shapeMismatch "subject[0]" "str" "int"
    (interpret {} (item "str").erase document (.text "Ann")).messages {} = .ok [] ∧
    (interpret {} (Program.all [item "str", .blank]).erase document (.text "Ann")).messages {} =
      .error (.unsupportedNode "Program") ∧
    FirstFault "subject" [] document (.text "Ann") clash .shape mismatch ∧
    (interpret {} clash document (.text "Ann")).messages {} = .error mismatch ∧ mismatch.IsShapeMismatch := by
  intro item document clash mismatch
  have hitem : document.lookup (.index 0) = some (.int 1) := Value.lookupIndex_list _ 0
  have hstr : (Shape.ofClass "str").test (.text "Ann") = .ok true := by decide
  have hint : (Shape.ofClass "int").test (.text "Ann") = .ok false := by decide
  have hfits (path : String) : (item "str").walk document (.text "Ann") path = .empty := by
    have hprojected : Program.projected (path ++ Segment.text (.index 0)) .ok (some (.ofClass "str")) (.text "Ann") =
        .ok (.text "Ann") := Program.projected_of_fits rfl fun _ h => Option.some.inj h ▸ hstr
    simp only [item, Program.walk, Value.find_eq_some_iff.2 hitem, hprojected]
    rfl
  have hmismatch : FirstFault "subject" [] document (.text "Ann") clash .shape mismatch := by
    have hclash : FirstFault "subject" [] document (.text "Ann") (item "int") .shape mismatch := .shape hitem rfl hint
    exact .tail (by rw [hfits]; rfl) (.head hclash)
  obtain ⟨hanswers, -⟩ := shapes_only_guard {} (item "str") document (.text "Ann")
  obtain ⟨-, -, -, hother, -⟩ := shapes_only_guard {} (.all [item "str", .blank]) document (.text "Ann")
  obtain ⟨-, -, -, -, hshape, -⟩ := shapes_only_guard {} clash document (.text "Ann")
  have hblank : FirstFault "subject" [] document (.text "Ann") (.all [item "str", .blank]) .node
      (.unsupportedNode "Program") := .tail (by rw [hfits]; rfl) (.head .blank)
  obtain ⟨hraised, hkind, -⟩ := hshape mismatch hmismatch
  refine ⟨hanswers [] ?_, (hother .node _ hblank id).2, hmismatch, hraised, hkind⟩
  rw [interpret_eq_walk, hfits]
  rfl

/-- A type without a test is no guard: the run raises where the run without it answers. -/
theorem untestable_shape_is_no_guard :
    let program : Program := .key "id" .ok (some (.ofUntestable "Row"))
    let host : Value := .object [("id", .int 1)]
    (interpret {} program host host).messages {} = .error .untestable ∧ ¬ Fault.untestable.IsShapeMismatch ∧
      (interpret {} program.erase host host).messages {} = .ok [] := by
  intro program host
  have hid : host.lookup (.key "id") = some (.int 1) := Value.lookupKey_object _ _
  have hfirst : FirstFault "subject" [] host host program .test .untestable := .test hid rfl rfl
  refine ⟨?_, id, ?_⟩
  · rw [Report.messages_eq_error, interpret_eq_walk]
    exact Program.fault?_of_firstFault hfirst
  · rw [interpret_eq_walk]
    simp only [program, Program.key, Program.erase, Program.walk, Value.find_eq_some_iff.2 hid]
    rfl

end Lockstep
