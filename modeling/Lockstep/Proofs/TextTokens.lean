import Mathlib.Tactic.SplitIfs
import Lockstep.Json.Render
import Lockstep.Json.Token

/-! Splitting texts into tokens. A text is split in the same way wherever it stands between tokens, so texts that
are written one after another are split one after another. A word is one token, and what quoting writes for a
text is split into that text. -/

namespace Lockstep

private theorem not_surrogate (c : Char) : isHighSurrogate c.toNat = false ∧ isLowSurrogate c.toNat = false := by
  have hvalid : c.toNat < 0xd800 ∨ 0xdfff < c.toNat ∧ c.toNat < 0x110000 := c.valid
  simp only [isHighSurrogate, isLowSurrogate, Bool.and_eq_false_iff, decide_eq_false_iff_not]
  omega

/-- The codes of characters stand for the characters again. -/
theorem charsOfCodes?_toNat (lone : Option Char) (cs : List Char) :
    charsOfCodes? lone (cs.map Char.toNat) = some cs := by
  have hlone (c : Char) : loneChar? lone c.toNat = some c := by
    obtain ⟨hhigh, hlow⟩ := not_surrogate c
    rw [loneChar?, hhigh, hlow]
    exact congrArg some (Char.ofNat_toNat c)
  induction cs with
  | nil => rw [List.map_nil, charsOfCodes?]
  | cons c cs ih =>
    cases cs with
    | nil =>
      rw [List.map_cons, List.map_nil, charsOfCodes?, hlone]
      rfl
    | cons d cs =>
      obtain ⟨hhigh, -⟩ := not_surrogate c
      rw [List.map_cons] at ih
      rw [List.map_cons, List.map_cons, charsOfCodes?, hhigh, Bool.false_and, if_neg Bool.false_ne_true, hlone,
        ih]
      rfl

namespace Json

namespace Lexer
variable {s : Lexer} {ts : List Token} {t : Token} {c : Char}

/-- The tokens of a lexer that is not inside of a text, if it is inside of a word with that word. -/
inductive Holds : Lexer → List Token → Prop where
  | between (tokens : List Token) : Holds ⟨.between, tokens⟩ tokens
  | word {read : List Char} {v : Value} (h : ofWord? read.reverse = some v) (tokens : List Token) :
      Holds ⟨.word read, tokens⟩ (.scalar v :: tokens)

private theorem Holds.next_mark (h : s.Holds ts) (hc : mark? c = some t) : s.next c = some ⟨.between, t :: ts⟩ := by
  cases h with
  | between => rw [next, begin, hc]
  | word hv =>
    have hends : endsWord c := by rw [endsWord, hc]; rfl
    simp only [next, hends, if_true, hv, Option.map_some, begin, hc]

private theorem Holds.finish_eq (h : s.Holds ts) : s.finish = some ts.reverse := by
  cases h with
  | between => rfl
  | word hv => simp only [finish, hv, Option.map_some]

end Lexer

open Lexer

/-- A text has these tokens wherever it stands between tokens, if what follows it ends its last word. -/
def Splits (cs : List Char) (ts : List Token) : Prop :=
  ∀ earlier, ∃ s, cs.foldlM Lexer.next ⟨.between, earlier⟩ = some s ∧ s.Holds (ts.reverse ++ earlier)

namespace Splits
variable {cs ds : List Char} {ts us : List Token} {c : Char} {t : Token}

theorem nil : Splits [] [] := fun earlier => ⟨_, rfl, .between earlier⟩

theorem cons_mark (hc : mark? c = some t) (h : Splits cs ts) : Splits (c :: cs) (t :: ts) := by
  intro earlier
  obtain ⟨s, hs, hholds⟩ := h (t :: earlier)
  refine ⟨s, ?_, ?_⟩
  · rw [List.foldlM_cons, (Holds.between earlier).next_mark hc]
    exact hs
  · rwa [List.reverse_cons, List.append_assoc]

/-- Texts with a mark between them are split one after another. -/
theorem append_mark (h : Splits cs ts) (hc : mark? c = some t) (h' : Splits ds us) :
    Splits (cs ++ c :: ds) (ts ++ t :: us) := by
  intro earlier
  obtain ⟨s, hs, hholds⟩ := h earlier
  -- The mark ends the word in which the first text may have left the lexer.
  obtain ⟨s', hs', hholds'⟩ := h' (t :: (ts.reverse ++ earlier))
  refine ⟨s', ?_, ?_⟩
  · rw [List.foldlM_append, hs]
    change (c :: ds).foldlM Lexer.next s = some s'
    rw [List.foldlM_cons, hholds.next_mark hc]
    exact hs'
  · simpa using hholds'

theorem tokens?_eq (h : Splits cs ts) : tokens? cs = some ts := by
  obtain ⟨s, hs, hholds⟩ := h []
  rw [tokens?, start, hs]
  change s.finish = some ts
  rw [hholds.finish_eq]
  simp

private theorem foldlM_word (earlier : List Token) (read : List Char) (h : ∀ c ∈ cs, endsWord c = false) :
    cs.foldlM Lexer.next ⟨.word read, earlier⟩ = some ⟨.word (cs.reverse ++ read), earlier⟩ := by
  induction cs generalizing read with
  | nil => rfl
  | cons c cs ih =>
    obtain ⟨hc, hcs⟩ := List.forall_mem_cons.1 h
    have hnext : Lexer.next ⟨.word read, earlier⟩ c = some ⟨.word (c :: read), earlier⟩ := by
      rw [Lexer.next]
      simp only [hc, Bool.false_eq_true, if_false]
    rw [List.foldlM_cons, hnext]
    change cs.foldlM Lexer.next ⟨.word (c :: read), earlier⟩ = _
    rw [ih _ hcs, List.reverse_cons, List.append_assoc]
    rfl

/-- A word is one token. -/
theorem word {v : Value} (hne : cs ≠ []) (h : ∀ c ∈ cs, endsWord c = false) (hv : ofWord? cs = some v) :
    Splits cs [.scalar v] := by
  intro earlier
  obtain ⟨c, ds, rfl⟩ := List.exists_cons_of_ne_nil hne
  obtain ⟨hc, hds⟩ := List.forall_mem_cons.1 h
  obtain ⟨hmark, hquote⟩ := Bool.or_eq_false_iff.1 hc
  obtain ⟨hmark, hblank⟩ := Bool.or_eq_false_iff.1 hmark
  have hbegin : begin earlier c = ⟨.word [c], earlier⟩ := by
    rw [begin, Option.not_isSome_iff_eq_none.1 (Bool.eq_false_iff.1 hmark)]
    simp only [hblank, Bool.false_eq_true, if_false, if_neg (of_decide_eq_false hquote)]
  refine ⟨⟨.word (ds.reverse ++ [c]), earlier⟩, ?_, ?_⟩
  · rw [List.foldlM_cons, Lexer.next]
    simp only [hbegin]
    exact foldlM_word earlier [c] hds
  · have hword : ofWord? (ds.reverse ++ [c]).reverse = some v := by simpa using hv
    exact .word hword earlier

theorem literal {v : Value} (hne : cs ≠ []) (h : cs.any endsWord = false) (hv : ofWord? cs = some v) :
    Splits cs [.scalar v] :=
  word hne (fun c hc => Bool.eq_false_iff.2 (List.any_eq_false.1 h c hc)) hv

/-- The four digits of the code of a control character. -/
theorem hexDigits_control :
    ∀ n < 32, hexDigits 4 n = ['0', '0', Nat.digitChar (n / 16), Nat.digitChar (n % 16)] := by
  decide

private theorem digitValue?_digitChar : ∀ d < 16, digitValue? 16 (Nat.digitChar d) = some d := by decide

private theorem foldlM_control {n : Nat} (h : n < 32) (read : List Nat) (earlier : List Token) :
    (hexDigits 4 n).foldlM Lexer.next ⟨.code read 4 0, earlier⟩ = some ⟨.text (n :: read), earlier⟩ := by
  have hdigit (left value d : Nat) (hd : d < 16) :
      Lexer.next ⟨.code read (left + 2) value, earlier⟩ (Nat.digitChar d) =
        some ⟨.code read (left + 1) (value * 16 + d), earlier⟩ := by
    simp only [Lexer.next, digitValue?_digitChar d hd, Option.map_some]
    rw [if_neg (by omega)]
    rfl
  have hlast (value d : Nat) (hd : d < 16) : Lexer.next ⟨.code read 1 value, earlier⟩ (Nat.digitChar d) =
      some ⟨.text ((value * 16 + d) :: read), earlier⟩ := by
    simp only [Lexer.next, digitValue?_digitChar d hd, Option.map_some]
    rfl
  have hsum : (0 * 16 + n / 16) * 16 + n % 16 = n := by omega
  calc (hexDigits 4 n).foldlM Lexer.next ⟨.code read 4 0, earlier⟩
      = [Nat.digitChar (n / 16), Nat.digitChar (n % 16)].foldlM Lexer.next ⟨.code read 2 0, earlier⟩ := by
        rw [hexDigits_control n h]
        rfl
    _ = [Nat.digitChar (n % 16)].foldlM Lexer.next ⟨.code read 1 (0 * 16 + n / 16), earlier⟩ := by
        rw [List.foldlM_cons, hdigit 0 0 _ (by omega)]
        rfl
    _ = some ⟨.text (n :: read), earlier⟩ := by
        rw [List.foldlM_cons, hlast _ _ (by omega), hsum]
        rfl

/-- Inside of a text, what is written for a character is read as that character. -/
theorem foldlM_escapedChar (read : List Nat) (earlier : List Token) (c : Char) :
    (escapedChar c).foldlM Lexer.next ⟨.text read, earlier⟩ = some ⟨.text (c.toNat :: read), earlier⟩ := by
  rw [escapedChar]
  split_ifs with hquote hslash hline hreturn htab hback hfeed hcontrol
  · rw [hquote]; rfl
  · rw [hslash]; rfl
  · rw [hline]; rfl
  · rw [hreturn]; rfl
  · rw [htab]; rfl
  · rw [hback]; rfl
  · rw [hfeed]; rfl
  · exact foldlM_control hcontrol read earlier
  · have hnext : Lexer.next ⟨.text read, earlier⟩ c = some ⟨.text (c.toNat :: read), earlier⟩ := by
      simp only [Lexer.next, if_neg hquote, if_neg hslash, if_neg hcontrol]
    rw [List.foldlM_cons, hnext]
    rfl

private theorem foldlM_escaped (cs : List Char) (read : List Nat) (earlier : List Token) :
    (cs.flatMap escapedChar).foldlM Lexer.next ⟨.text read, earlier⟩ =
      some ⟨.text ((cs.map Char.toNat).reverse ++ read), earlier⟩ := by
  induction cs generalizing read with
  | nil => rfl
  | cons c cs ih =>
    rw [List.flatMap_cons, List.foldlM_append, foldlM_escapedChar]
    change (cs.flatMap escapedChar).foldlM Lexer.next ⟨.text (c.toNat :: read), earlier⟩ = _
    rw [ih]
    simp

/-- A quoted text is one token. -/
theorem quote (s : String) : Splits (Json.quote s).toList [.scalar (.text s)] := by
  intro earlier
  have hclose : Lexer.next ⟨.text ((s.toList.map Char.toNat).reverse ++ []), earlier⟩ '\x22' =
      some ⟨.between, .scalar (.text s) :: earlier⟩ := by
    simp only [Lexer.next, if_true, List.append_nil, List.reverse_reverse, charsOfCodes?_toNat, Option.map_some,
      String.ofList_toList]
  refine ⟨_, ?_, .between _⟩
  rw [Json.quote, String.toList_ofList, List.foldlM_cons]
  change (s.toList.flatMap escapedChar ++ ['\x22']).foldlM Lexer.next ⟨.text [], earlier⟩ = _
  rw [List.foldlM_append, foldlM_escaped]
  change ['\x22'].foldlM Lexer.next ⟨.text ((s.toList.map Char.toNat).reverse ++ []), earlier⟩ = _
  rw [List.foldlM_cons, hclose]
  rfl

end Splits

end Json

end Lockstep
