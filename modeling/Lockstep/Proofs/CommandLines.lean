import Mathlib.Data.List.TakeWhile
import Lockstep.Command.Run

/-! Command lines and what they ask for. A document can be named in front of any command line that names none,
which changes nothing else about it. How a run ends does not depend on whether it is to be seen. -/

namespace Lockstep.Command

namespace Settings
variable (s : Settings) (document : String)

/-- Options are taken in alike with a document and without one, as long as they name none. -/
theorem assign_comm (opt : Opt) (v : String) (h : (s.assign opt v).document = none) :
    s.document = none ∧
      (s.assign .document document).assign opt v = (s.assign opt v).assign .document document := by
  cases opt with
  | document => cases h
  | _ => exact ⟨h, rfl⟩

private theorem turnOn_comm (opt : Opt) (h : (s.turnOn opt).document = none) :
    s.document = none ∧
      (s.assign .document document).turnOn opt = (s.turnOn opt).assign .document document := by
  cases opt <;> exact ⟨h, rfl⟩

end Settings

theorem helpRequest_ne_run (joined : Joined) (s : Settings) : helpRequest joined ≠ .ok (.run s) := by
  unfold helpRequest
  split
  · nofun
  · nofun
  · split <;> nofun

/-- If some words name no document, one that is named before them is the only thing that changes what they ask
for. -/
theorem interpretWords_document {s t : Settings} {extra : List String} {words : List Word}
    (h : interpretWords s extra words = .ok (.run t)) (hnone : t.document = none) (document : String) :
    s.document = none ∧
      interpretWords (s.assign .document document) extra words = .ok (.run (t.assign .document document)) := by
  -- Words are taken in from the left, so a step is undone by what is known of the settings after it.
  fun_induction interpretWords s extra words with
  | case1 => cases h
  | case2 => cases h
  | case3 s extra missing hmissing hextra =>
    cases h
    refine ⟨hnone, ?_⟩
    rw [interpretWords]
    exact (if_neg hmissing).trans (if_neg hextra)
  | case4 s extra arg words ih => exact ih h
  | case5 s extra arg words ih => exact ih h
  | case6 s extra joined words => exact absurd h (helpRequest_ne_run joined t)
  | case7 s extra opt hhelp htakes v words ih =>
    obtain ⟨hassign, hih⟩ := ih h
    obtain ⟨hs, hcomm⟩ := s.assign_comm document opt v hassign
    refine ⟨hs, ?_⟩
    rw [interpretWords, if_neg hhelp, if_pos htakes, hcomm]
    exact hih
  | case8 s extra opt joined hhelp htakes v words hjoined ih =>
    obtain ⟨hassign, hih⟩ := ih h
    obtain ⟨hs, hcomm⟩ := s.assign_comm document opt v hassign
    refine ⟨hs, ?_⟩
    rw [interpretWords, if_neg hhelp, if_pos htakes, hcomm]
    · exact hih
    · exact hjoined
  | case9 => cases h
  | case10 => cases h
  | case11 s extra opt joined words hhelp htakes hjoined ih =>
    obtain ⟨hturn, hih⟩ := ih h
    obtain ⟨hs, hcomm⟩ := s.turnOn_comm document opt hturn
    refine ⟨hs, ?_⟩
    cases joined with
    | value v => exact absurd rfl (hjoined v)
    | _ =>
      rw [← hcomm] at hih
      unfold interpretWords
      rw [if_neg hhelp, if_neg htakes]
      exact hih

/-- A value that is joined to a name without an equals sign is split from it again. -/
theorem splitValue_append {name : String} (h : '=' ∉ name.toList) (v : String) :
    splitValue (name ++ "=" ++ v) = (name, .value v) := by
  have hchars : (name ++ "=" ++ v).toList = name.toList ++ '=' :: v.toList := by simp
  have hbefore : (name.toList ++ '=' :: v.toList).takeWhile (· ≠ '=') = name.toList := by
    rw [List.takeWhile_append_of_pos fun c hc => decide_eq_true (ne_of_mem_of_not_mem hc h)]
    simp
  have hshorter : name.toList.length ≠ (name.toList ++ '=' :: v.toList).length := by simp
  rw [splitValue, hchars, hbefore, if_neg hshorter]
  simp

theorem splitValue_of_not_mem {name : String} (h : '=' ∉ name.toList) : splitValue name = (name, .nothing) := by
  have hbefore : name.toList.takeWhile (· ≠ '=') = name.toList :=
    List.takeWhile_eq_self_iff.2 fun c hc => decide_eq_true (ne_of_mem_of_not_mem hc h)
  rw [splitValue, hbefore]
  exact if_pos rfl

/-- Every option is known by its spellings, on their own and with a value behind an equals sign. -/
theorem classify_spelling {name : String} {opt : Opt} (h : (name, opt) ∈ spellings) :
    classify name = .ok (.option opt .nothing) ∧ ∀ v, classify (name ++ "=" ++ v) = .ok (.option opt (.value v)) := by
  have hspellings : ∀ e ∈ spellings, spellings.lookup e.1 = some e.2 ∧ '=' ∉ e.1.toList ∧
      e.1.startsWith "-" ∧ 1 < e.1.length := by
    decide +kernel
  obtain ⟨hlookup, hequals, hhyphen, hlong⟩ := hspellings _ h
  dsimp only at hlookup hequals hhyphen hlong
  have hclassify (arg : String) (joined : Joined) (hsplit : splitValue arg = (name, joined))
      (hbegins : name.toList <+: arg.toList) : classify arg = .ok (.option opt joined) := by
    have hstarts : arg.startsWith "-" := by
      rw [String.startsWith_string_iff] at hhyphen ⊢
      exact hhyphen.trans hbegins
    have hshort : ¬ arg.length ≤ 1 := by
      have hlength := hbegins.length_le
      rw [String.length_toList, String.length_toList] at hlength
      omega
    rw [classify, hsplit]
    simp only [hshort, hstarts, hlookup, decide_false, Bool.not_true, Bool.or_self, Bool.false_eq_true, if_false]
  refine ⟨hclassify name _ (splitValue_of_not_mem hequals) (List.prefix_refl _), fun v => ?_⟩
  refine hclassify _ _ (splitValue_append hequals v) ?_
  rw [String.append_assoc, String.toList_append]
  exact List.prefix_append _ _

/-- A document can be named in front of a command line that names none, with no other effect. -/
theorem readArguments_document {args : List String} {s : Settings} (h : readArguments args = .ok (.run s))
    (hnone : s.document = none) (document : String) :
    readArguments (("--document=" ++ document) :: args) = .ok (.run (s.assign .document document)) := by
  have hne : "--document=" ++ document ≠ "--" := by
    intro h
    have hlength := congrArg String.length h
    rw [String.length_append] at hlength
    have hname : "--document=".length = 11 := rfl
    have hhyphens : "--".length = 2 := rfl
    omega
  rw [readArguments] at h ⊢
  cases hwords : classifyAll args with
  | error e => rw [hwords] at h; cases h
  | ok words =>
    rw [hwords] at h
    have hname : "--document=" = "--document" ++ "=" := by decide
    have hspelling : ("--document", Opt.document) ∈ spellings := by decide
    rw [classifyAll, if_neg hne, hname, (classify_spelling hspelling).2, hwords]
    exact (interpretWords_document h hnone document).2

/-- The values that words give to an option, in order. -/
def valuesOf (opt : Opt) : List Word → List String
  | [] => []
  | .option o (.value v) :: words => if o = opt then v :: valuesOf opt words else valuesOf opt words
  | .option o _ :: .plain v :: words => if o = opt then v :: valuesOf opt words else valuesOf opt words
  | _ :: words => valuesOf opt words

def Word.isOption (opt : Opt) : Word → Bool
  | .option o _ => o = opt
  | _ => false

/-- Settings after words: of the values that are given to an option the last one wins, and an option without a
value is on as soon as it is named. -/
def Settings.take (s : Settings) (words : List Word) : Settings where
  program := (valuesOf .program words).getLast?.or s.program
  host := (valuesOf .host words).getLast?.or s.host
  document := (valuesOf .document words).getLast?.or s.document
  rootLabel := (valuesOf .rootLabel words).getLast?.getD s.rootLabel
  indexInFailures := s.indexInFailures || words.any (Word.isOption .indexInFailures)
  verbose := s.verbose || words.any (Word.isOption .verbose)

namespace Settings
variable (s : Settings) {opt : Opt} (words : List Word)

end Settings

/-- Whether a run is to be seen makes no difference to its end. -/
theorem ending_run {tree : FileTree} {args : List String} {s : Settings} (h : readArguments args = .ok (.run s)) :
    (run tree args).ending = (runSettings tree s).ending := by
  rw [run, h]
  change (if s.verbose then _ else _ : Outcome).ending = _
  split <;> rfl

end Lockstep.Command
