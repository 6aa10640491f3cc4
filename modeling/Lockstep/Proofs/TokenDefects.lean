import Lockstep.Yaml.Tokens

/-! Which defects splitting a YAML text into tokens can meet. Besides defects of syntax these are escapes that stand
for no character and version numbers with too many digits. -/

namespace Lockstep.Yaml

/-- The defects that tokens can have. -/
inductive TokenDefect : Defect → Prop where
  | malformed : TokenDefect .malformed
  /-- An escape for a number that is too large for a machine word. -/
  | overflow : TokenDefect (.scalar .overflow)
  /-- An escape for a number that is no character. -/
  | codePointRange : TokenDefect (.scalar .codePointRange)
  /-- A version with too many digits. -/
  | malformedNumber : TokenDefect (.scalar .malformedNumber)

/-- A result with a property, or a defect of a kind. -/
structure Ends {α : Type} (E : Defect → Prop) (P : α → Prop) (result : Except Defect α) : Prop where
  ok : ∀ a, result = .ok a → P a
  error : ∀ d, result = .error d → E d

section Ends
variable {α β : Type} {E : Defect → Prop} {P : α → Prop} {Q : β → Prop}

theorem ends_ok {a : α} (h : P a) : Ends E P (.ok a) := ⟨by rintro _ ⟨⟩; exact h, nofun⟩

theorem ends_error {d : Defect} (h : E d) : Ends E P (.error d) := ⟨nofun, by rintro _ ⟨⟩; exact h⟩

theorem Ends.bind {x : Except Defect α} {f : α → Except Defect β} (hx : Ends E P x)
    (hf : ∀ a, P a → Ends E Q (f a)) : Ends E Q (x >>= f) := by
  cases x with
  | error d => exact ends_error (hx.error d rfl)
  | ok a => exact hf a (hx.ok a rfl)

theorem Ends.ite {c : Prop} [Decidable c] {x y : Except Defect α} (hx : Ends E P x) (hy : Ends E P y) :
    Ends E P (if c then x else y) := by
  split
  · exact hx
  · exact hy

end Ends

/-- Any result, or a defect that tokens can have. -/
def Scans {α : Type} (result : Except Defect α) : Prop := Ends TokenDefect (fun _ => True) result

section Scans
variable {α β : Type}

private theorem scans_ok (a : α) : Scans (.ok a : Except Defect α) := ends_ok trivial

private theorem scans_error {d : Defect} (h : TokenDefect d) : Scans (.error d : Except Defect α) := ends_error h

private theorem scans_malformed : Scans (.error .malformed : Except Defect α) := scans_error .malformed

theorem Scans.bind {x : Except Defect α} {f : α → Except Defect β} (hx : Scans x) (hf : ∀ a, Scans (f a)) :
    Scans (x >>= f) := Ends.bind hx fun a _ => hf a

theorem Scans.map {x : Except Defect α} (hx : Scans x) (f : α → β) : Scans (x.map f) := by
  cases x with
  | error d => exact scans_error (hx.error d rfl)
  | ok a => exact scans_ok _

theorem Scans.ite {c : Prop} [Decidable c] {x y : Except Defect α} (hx : Scans x) (hy : Scans y) :
    Scans (if c then x else y) := Ends.ite hx hy

end Scans

private theorem scans_escapeCode (length : Nat) (c : Cursor) : Scans (escapeCode length c) := by
  refine scans_malformed.ite ?_
  split
  · exact scans_malformed
  · exact (scans_error .overflow).ite ((scans_error .codePointRange).ite (scans_ok _))

private theorem scans_quotedBreaks (fuel : Nat) (c : Cursor) : Scans (quotedBreaks fuel c) := by
  induction fuel generalizing c with
  | zero => exact scans_malformed
  | succ fuel ih =>
    refine scans_malformed.ite ?_
    dsimp only
    split
    · exact scans_ok _
    · exact (ih _).map _

private theorem scans_escapeAt (c : Cursor) : Scans (escapeAt c) := by
  rw [escapeAt]
  split
  · exact scans_malformed
  · split
    · exact scans_ok _
    · exact (scans_escapeCode _ _).map _
    · exact (scans_quotedBreaks _ _).map _
    · exact scans_malformed

private theorem scans_quotedBlanks (c : Cursor) : Scans (quotedBlanks c) := by
  rw [quotedBlanks]
  split
  split
  · exact scans_ok _
  · exact (scans_quotedBreaks _ _).map _

/-- The codes of one part of a quoted scalar in front of the rest. -/
theorem scans_codesBefore {rest : Cursor → Except Defect (List Nat × Cursor)} (h : ∀ c, Scans (rest c))
    (r : List Nat × Cursor) : Scans (do
      let (codes, c) ← rest r.2
      pure (r.1 ++ codes, c)) := (h _).bind fun _ => scans_ok _

private theorem scans_quotedCodes (double : Bool) (fuel : Nat) (c : Cursor) : Scans (quotedCodes double fuel c) := by
  induction fuel generalizing c with
  | zero => exact scans_malformed
  | succ fuel ih =>
    rw [quotedCodes]
    have hrest := scans_codesBefore ih
    cases c.peek with
    | none => exact scans_malformed
    | some ch =>
      refine .ite (.ite ((ih _).map _) (scans_ok _)) (.ite ?_ (.ite ?_ ?_))
      · exact (scans_escapeAt _).bind hrest
      · exact (scans_quotedBlanks _).bind hrest
      · exact (scans_ok _).bind hrest

private theorem scans_quotedScalar (double : Bool) (c : Cursor) : Scans (quotedScalar double c) :=
  (scans_quotedCodes _ _ _).bind fun _ => scans_ok _

/-- Where only a comment may follow on the line. -/
theorem scans_finish {α : Type} (c? : Option Cursor) (f : Cursor → α) : Scans (match c? with
    | some c => pure (f c)
    | none => throw .malformed : Except Defect α) := by
  cases c? with
  | some c => exact scans_ok _
  | none => exact scans_malformed

private theorem scans_blockHeader (c : Cursor) : Scans (blockHeader c) := by
  rw [blockHeader]
  split
  exact .ite scans_malformed (scans_finish _ _)

private theorem scans_blockScalar (folded : Bool) (least : Nat) (c : Cursor) : Scans (blockScalar folded least c) :=
  (scans_blockHeader _).bind fun _ => scans_ok _

private theorem scans_anchorName (c : Cursor) : Scans (anchorName c) := scans_malformed.ite (scans_ok _)

private theorem scans_uriBytes (cs : List Char) : Scans (uriBytes cs) := by
  fun_induction uriBytes cs with
  | case1 => exact scans_malformed
  | case2 a b rest n hn ih => exact ih.map _
  | case3 => exact scans_malformed
  | case4 => exact scans_ok _

private theorem scans_uriChars (fuel : Nat) (c : Cursor) : Scans (uriChars fuel c) := by
  induction fuel generalizing c with
  | zero => exact scans_malformed
  | succ fuel ih =>
    refine .ite ((scans_uriBytes _).bind fun r => ?_) (.ite (scans_ok _) ((ih _).map _))
    dsimp only
    split
    · exact scans_malformed
    · exact (ih _).bind fun _ => scans_ok _

private theorem scans_tagUri (c : Cursor) : Scans (tagUri c) :=
  (scans_uriChars _ _).bind fun _ => .ite scans_malformed (scans_ok _)

private theorem scans_tagHandle (c : Cursor) : Scans (tagHandle c) :=
  scans_malformed.ite (.ite (scans_ok _) (.ite (scans_ok _) scans_malformed))

private theorem scans_versionNumber (c : Cursor) : Scans (versionNumber c) := by
  rw [versionNumber]
  dsimp only
  split
  · exact scans_malformed
  · exact (scans_error .malformedNumber).ite (scans_ok _)

private theorem scans_tagToken (c : Cursor) : Scans (tagToken c) := by
  have hrest (r : Token × Cursor) : Scans (if endsWord r.2.peek then pure r else throw .malformed) :=
    .ite (scans_ok _) scans_malformed
  refine .ite ?_ (.ite ?_ ?_)
  · exact (scans_tagUri _).bind fun _ => .ite scans_malformed ((scans_ok _).bind hrest)
  · exact hrest (_, _)
  · refine .ite ?_ ?_
    · exact (scans_tagHandle _).bind fun _ => (scans_tagUri _).bind fun _ => hrest (_, _)
    · exact (scans_tagUri _).bind fun _ => hrest (_, _)

private theorem scans_directiveToken (c : Cursor) : Scans (directiveToken c) := by
  refine .ite scans_malformed (.ite ?_ (.ite ?_ ?_))
  · refine (scans_versionNumber _).bind fun _ => .ite scans_malformed ?_
    exact (scans_versionNumber _).bind fun _ => .ite scans_malformed (scans_finish _ _)
  · refine (scans_tagHandle _).bind fun _ => .ite scans_malformed ?_
    exact (scans_tagUri _).bind fun _ => .ite scans_malformed (scans_finish _ _)
  · exact scans_finish _ _

namespace Scanner
variable (s : Scanner)

private theorem scans_dropStale : Scans s.dropStale := scans_malformed.ite (scans_ok _)

private theorem scans_dropKey : Scans s.dropKey := by
  rw [dropKey]
  split
  · exact scans_malformed.ite (scans_ok _)
  · exact scans_ok _

private theorem scans_noteKey : Scans s.noteKey := .ite ((scans_dropKey s).bind fun _ => scans_ok _) (scans_ok _)

private theorem scans_openBlock (t : Token) : Scans (s.openBlock t) :=
  (scans_ok _).ite (scans_malformed.ite ((scans_ok _).ite (scans_ok _)))

private theorem scans_scanSeparator (t : Token) : Scans (s.scanSeparator t) :=
  (scans_dropKey _).bind fun _ => scans_ok _

private theorem scans_scanDirective : Scans s.scanDirective :=
  (scans_dropKey _).bind fun _ => (scans_directiveToken _).bind fun _ => scans_ok _

private theorem scans_scanFlowStart (t : Token) : Scans (s.scanFlowStart t) :=
  (scans_noteKey s).bind fun _ => scans_ok _

private theorem scans_scanFlowEnd (t : Token) : Scans (s.scanFlowEnd t) :=
  (scans_dropKey s).bind fun _ => (scans_ok _).ite scans_malformed

private theorem scans_scanFlowEntry : Scans s.scanFlowEntry := (scans_dropKey s).bind fun _ => scans_ok _

private theorem scans_scanBlockEntry : Scans s.scanBlockEntry :=
  (scans_openBlock s _).bind fun _ => (scans_dropKey _).bind fun _ => scans_ok _

private theorem scans_scanKey : Scans s.scanKey :=
  (scans_openBlock s _).bind fun _ => (scans_dropKey _).bind fun _ => scans_ok _

private theorem scans_scanValue : Scans s.scanValue := by
  rw [scanValue]
  split
  · exact scans_ok _
  · exact (scans_openBlock s _).bind fun _ => (scans_dropKey _).bind fun _ => scans_ok _

private theorem scans_scanProperty {read : Cursor → Except Defect (Token × Cursor)} (h : ∀ c, Scans (read c)) :
    Scans (s.scanProperty read) := (scans_noteKey s).bind fun _ => (h _).bind fun _ => scans_ok _

private theorem scans_scanQuoted (double : Bool) : Scans (s.scanQuoted double) :=
  scans_scanProperty s fun c => (scans_quotedScalar double c).map _

private theorem scans_scanBlock (folded : Bool) : Scans (s.scanBlock folded) :=
  (scans_dropKey s).bind fun _ => (scans_blockScalar _ _ _).bind fun _ => scans_ok _

private theorem scans_scanPlain : Scans s.scanPlain := (scans_noteKey s).bind fun _ => scans_ok _

private theorem scans_scanToken (ch : Char) : Scans (s.scanToken ch) := by
  -- The order is that of the indicators: separators, flow collections, entries, properties, scalars.
  refine (scans_scanDirective s).ite ((scans_scanSeparator s _).ite ((scans_scanSeparator s _).ite ?_))
  refine (scans_scanFlowStart s _).ite ((scans_scanFlowStart s _).ite ?_)
  refine (scans_scanFlowEnd s _).ite ((scans_scanFlowEnd s _).ite ((scans_scanFlowEntry s).ite ?_))
  refine (scans_scanBlockEntry s).ite ((scans_scanKey s).ite ((scans_scanValue s).ite ?_))
  refine (scans_scanProperty s fun c => (scans_anchorName c).map _).ite ?_
  refine (scans_scanProperty s fun c => (scans_anchorName c).map _).ite ?_
  refine (scans_scanProperty s scans_tagToken).ite ((scans_scanBlock s _).ite ((scans_scanBlock s _).ite ?_))
  exact (scans_scanQuoted s _).ite ((scans_scanQuoted s _).ite ((scans_scanPlain s).ite scans_malformed))

private theorem scans_step : Scans s.step := by
  refine (scans_dropStale _).bind fun s' => ?_
  dsimp only
  split
  · exact (scans_scanToken _ _).bind fun _ => scans_ok _
  · exact (scans_dropKey _).bind fun _ => scans_ok _

end Scanner

private theorem tokenDefect_of_scanAll {fuel : Nat} {s : Scanner} {d : Defect} (h : (scanAll fuel s).defect? = some d) :
    TokenDefect d := by
  induction fuel generalizing s with
  | zero => cases h; exact .malformed
  | succ fuel ih =>
    rw [scanAll] at h
    have hstep := s.scans_step
    split at h
    · rename_i hs
      cases h
      exact hstep.error _ hs
    · exact ih h
    · cases h

/-- What is wrong with the tokens of a text, if anything is. -/
theorem tokenDefect_of_tokensOf {cs : List Char} {d : Defect} (h : (tokensOf cs).defect? = some d) : TokenDefect d :=
  tokenDefect_of_scanAll h

end Lockstep.Yaml
