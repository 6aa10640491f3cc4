import Lockstep.Proofs.DocumentReading

/-! Canonical texts can be read in one way only. A text that begins with the text of a value determines the value
and where its text ends, so the canonical text of a document is shared by its reorderings and by no other
document. No limit of the reader comes in: integers may be of any length and containers of any depth. -/

namespace Lockstep

/-- A word is over where the next character ends words, or where nothing follows. -/
theorem word_append_inj {ends : Char → Bool} {cs ds r s : List Char} (hcs : ∀ c ∈ cs, ends c = false)
    (hds : ∀ c ∈ ds, ends c = false) (hr : ∀ c ∈ r.head?, ends c) (hs : ∀ c ∈ s.head?, ends c)
    (h : cs ++ r = ds ++ s) : cs = ds ∧ r = s := by
  induction cs generalizing ds with
  | nil =>
    cases ds with
    | nil => exact ⟨rfl, h⟩
    | cons d ds =>
      have hd := hr d (by rw [List.nil_append] at h; rw [h]; rfl)
      rw [hds d List.mem_cons_self] at hd
      cases hd
  | cons c cs ih =>
    cases ds with
    | nil =>
      have hc := hs c (by rw [List.nil_append] at h; rw [← h]; rfl)
      rw [hcs c List.mem_cons_self] at hc
      cases hc
    | cons d ds =>
      obtain ⟨rfl, htail⟩ := List.cons.inj h
      obtain ⟨rfl, hrest⟩ := ih (fun c hc => hcs c (List.mem_cons_of_mem _ hc))
        (fun c hc => hds c (List.mem_cons_of_mem _ hc)) htail
      exact ⟨rfl, hrest⟩

namespace Json
open Lexer Numeral Value

/-- What may stand behind the text of a value: nothing, or something that ends a word. -/
def Ends (rest : List Char) : Prop := ∀ c ∈ rest.head?, endsWord c

section Quoting

/-- What stands for a character inside of a quoted text: itself, a backslash and a letter, or its code. -/
theorem escapedChar_cases (c : Char) :
    (escapedChar c = [c] ∧ c ≠ '\x22' ∧ c ≠ '\\') ∨
    (∃ d, d ≠ 'u' ∧ unescaped? d = some c ∧ escapedChar c = ['\\', d]) ∨
    (c.toNat < 32 ∧ escapedChar c = '\\' :: 'u' :: hexDigits 4 c.toNat) := by
  rw [escapedChar]
  split_ifs with hquote hslash hline hreturn htab hback hfeed hcontrol
  · exact .inr (.inl ⟨_, by decide, by rw [hquote]; rfl, rfl⟩)
  · exact .inr (.inl ⟨_, by decide, by rw [hslash]; rfl, rfl⟩)
  · exact .inr (.inl ⟨_, by decide, by rw [hline]; rfl, rfl⟩)
  · exact .inr (.inl ⟨_, by decide, by rw [hreturn]; rfl, rfl⟩)
  · exact .inr (.inl ⟨_, by decide, by rw [htab]; rfl, rfl⟩)
  · exact .inr (.inl ⟨_, by decide, by rw [hback]; rfl, rfl⟩)
  · exact .inr (.inl ⟨_, by decide, by rw [hfeed]; rfl, rfl⟩)
  · exact .inr (.inr ⟨hcontrol, rfl⟩)
  · exact .inl ⟨rfl, hquote, hslash⟩

private theorem hexDigits_inj : ∀ m < 32, ∀ n < 32, hexDigits 4 m = hexDigits 4 n → m = n := by decide +kernel

private theorem length_hexDigits : ∀ m < 32, (hexDigits 4 m).length = 4 := by decide +kernel

/-- What stands for a character determines the character and where it ends. -/
theorem escapedChar_append_inj {c d : Char} {r s : List Char} (h : escapedChar c ++ r = escapedChar d ++ s) :
    c = d ∧ r = s := by
  rcases escapedChar_cases c with ⟨hc, -, hcs⟩ | ⟨x, hx, hcx, hc⟩ | ⟨hlt, hc⟩ <;>
    rcases escapedChar_cases d with ⟨hd, -, hds⟩ | ⟨y, hy, hdy, hd⟩ | ⟨hlt', hd⟩ <;>
    rw [hc, hd] at h
  · exact ⟨(List.cons.inj h).1, (List.cons.inj h).2⟩
  · exact absurd (List.cons.inj h).1 hcs
  · exact absurd (List.cons.inj h).1 hcs
  · exact absurd (List.cons.inj h).1.symm hds
  · obtain ⟨rfl, hrest⟩ := List.cons.inj (List.cons.inj h).2
    exact ⟨Option.some.inj (hcx.symm.trans hdy), hrest⟩
  · exact absurd (List.cons.inj (List.cons.inj h).2).1 hx
  · exact absurd (List.cons.inj h).1.symm hds
  · exact absurd (List.cons.inj (List.cons.inj h).2).1.symm hy
  · have hcode := (List.cons.inj (List.cons.inj h).2).2
    obtain ⟨hdigits, hrest⟩ := List.append_inj hcode (by rw [length_hexDigits _ hlt, length_hexDigits _ hlt'])
    exact ⟨Char.toNat_inj.1 (hexDigits_inj _ hlt _ hlt' hdigits), hrest⟩

/-- No escape begins with the quote that ends the text. -/
theorem escapedChar_append_ne (c : Char) (r s : List Char) : escapedChar c ++ r ≠ '\x22' :: s := by
  intro h
  rcases escapedChar_cases c with ⟨hc, hquote, -⟩ | ⟨d, -, -, hc⟩ | ⟨-, hc⟩ <;> rw [hc] at h
  · exact hquote (List.cons.inj h).1
  · simp at h
  · simp at h

private theorem escaped_append_inj {cs ds r s : List Char}
    (h : cs.flatMap escapedChar ++ '\x22' :: r = ds.flatMap escapedChar ++ '\x22' :: s) : cs = ds ∧ r = s := by
  induction cs generalizing ds with
  | nil =>
    cases ds with
    | nil => exact ⟨rfl, (List.cons.inj h).2⟩
    | cons d ds =>
      rw [List.flatMap_cons, List.append_assoc] at h
      exact absurd h.symm (escapedChar_append_ne d _ _)
  | cons c cs ih =>
    cases ds with
    | nil =>
      rw [List.flatMap_cons, List.append_assoc] at h
      exact absurd h (escapedChar_append_ne c _ _)
    | cons d ds =>
      rw [List.flatMap_cons, List.flatMap_cons, List.append_assoc, List.append_assoc] at h
      obtain ⟨rfl, htail⟩ := escapedChar_append_inj h
      obtain ⟨rfl, hrest⟩ := ih htail
      exact ⟨rfl, hrest⟩

/-- A quoted text determines the text and where it ends. -/
theorem quote_append_inj {a b : String} {r s : List Char}
    (h : (quote a).toList ++ r = (quote b).toList ++ s) : a = b ∧ r = s := by
  rw [quote, quote, String.toList_ofList, String.toList_ofList, List.cons_append, List.cons_append,
    List.append_assoc, List.append_assoc] at h
  obtain ⟨hchars, hrest⟩ := escaped_append_inj (List.cons.inj h).2
  exact ⟨String.toList_inj.1 hchars, hrest⟩

end Quoting

/-- A scalar that is no text, with the word that is written for it. -/
inductive Spelled : Value → List Char → Prop where
  | int (i : Int) : Spelled (.int i) (toString i).toList
  | other {v : Value} {cs : List Char} (h : ofWord? cs = some v) (hv : ∀ i, v ≠ .int i) (hne : cs ≠ [])
      (hcs : ∀ c ∈ cs, endsWord c = false) : Spelled v cs

namespace Spelled
variable {v w : Value} {cs : List Char}

theorem word (h : Spelled v cs) : cs ≠ [] ∧ ∀ c ∈ cs, endsWord c = false := by
  cases h with
  | int i => exact word_int i
  | other _ _ hne hcs => exact ⟨hne, hcs⟩

/-- A word does not begin with a mark. -/
theorem append_ne_cons (h : Spelled v cs) {c : Char} (hc : endsWord c) (r s : List Char) : cs ++ r ≠ c :: s := by
  obtain ⟨hne, hcs⟩ := h.word
  cases cs with
  | nil => exact absurd rfl hne
  | cons d ds =>
    intro heq
    obtain ⟨rfl, -⟩ := List.cons.inj heq
    rw [hcs d List.mem_cons_self] at hc
    cases hc

theorem literal (h : ofWord? cs = some v) (hv : ∀ i, v ≠ .int i) (hne : cs ≠ []) (hcs : cs.any endsWord = false) :
    Spelled v cs :=
  .other h hv hne fun c hc => Bool.eq_false_iff.2 (List.any_eq_false.1 hcs c hc)

/-- The word of an integer is not read as anything else. -/
theorem not_ofWord?_int {i : Int} (h : ofWord? (toString i).toList = some v) : ∃ j, v = .int j := by
  rw [ofWord?, ← written_intNumeral, split?_written (digital_intNumeral i)] at h
  simp only [ofNumeral?] at h
  split at h
  · cases h
  · exact ⟨_, (Option.some.inj h).symm⟩

/-- A word is written for one value only. -/
theorem inj (h : Spelled v cs) (h' : Spelled w cs) : v = w := by
  cases h with
  | int i =>
    generalize hcs : (toString i).toList = cs at h'
    cases h' with
    | int j =>
      rw [← written_intNumeral, ← written_intNumeral] at hcs
      have hnumeral : intNumeral i = intNumeral j := by
        apply Option.some.inj
        rw [← split?_written (digital_intNumeral i), hcs, split?_written (digital_intNumeral j)]
      rw [← value_intNumeral i, hnumeral, value_intNumeral j]
    | other hw hv =>
      obtain ⟨j, rfl⟩ := not_ofWord?_int (hcs ▸ hw)
      exact absurd rfl (hv j)
  | other hv hnot =>
    cases h' with
    | int j =>
      obtain ⟨i, rfl⟩ := not_ofWord?_int hv
      exact absurd rfl (hnot i)
    | other hw => exact Option.some.inj (hv.symm.trans hw)

end Spelled

/-- The text of items from the first one on, and the end of the list. -/
def itemsText : List Value → List Char
  | [] => [']']
  | x :: xs => x.canonicalText.toList ++ itemsEnd xs

/-- The text of fields from the first one on, and the end of the object. -/
def fieldsText : List (String × Value) → List Char
  | [] => ['\x7d']
  | f :: fs => fieldChars f ++ fieldsEnd fs

/-- The forms that a canonical text can have; the first character tells them apart. -/
inductive Form : Value → List Char → Prop where
  | word {v : Value} {cs : List Char} (h : Spelled v cs) : Form v cs
  | text (s : String) : Form (.text s) ('\x22' :: (s.toList.flatMap escapedChar ++ ['\x22']))
  | list {items : List Value} (h : ∀ v ∈ items, v.Ordered) : Form (.list items) ('[' :: itemsText items)
  | object {fields : List (String × Value)} (h : ∀ f ∈ fields, f.2.Ordered) :
      Form (.object fields) ('\x7b' :: fieldsText fields)

private theorem form_canonicalText {v : Value} (h : v.Ordered) : Form v v.canonicalText.toList := by
  cases h with
  | null =>
    rw [canonicalText]
    exact .word (.literal rfl (by simp) (by decide) (by decide))
  | bool b =>
    rw [canonicalText]
    cases b with
    | true => exact .word (.literal rfl (by simp) (by decide) (by decide))
    | false => exact .word (.literal rfl (by simp) (by decide) (by decide))
  | int n =>
    rw [canonicalText]
    exact .word (.int n)
  | float x =>
    rw [canonicalText, NumberLayout.text, String.toList_ofList]
    cases x with
    | nan => exact .word (.literal rfl (by simp) (by decide) (by decide))
    | infinite negative => cases negative with
      | true => exact .word (.literal rfl (by simp) (by decide) (by decide))
      | false => exact .word (.literal rfl (by simp) (by decide) (by decide))
    | finite negative x =>
      obtain ⟨hne, hword, hread⟩ := ofWord?_float negative x
      exact .word (.other hread (by simp) hne hword)
  | text s =>
    rw [canonicalText, quote, String.toList_ofList]
    exact .text s
  | @list items h =>
    have htext : (Value.list items).canonicalText.toList = '[' :: itemsText items := by
      cases items with
      | nil => rw [canonicalText_list]; rfl
      | cons x xs => exact toList_canonicalText_list x xs
    rw [htext]
    exact .list h
  | @object fields sorted h =>
    have htext : (Value.object fields).canonicalText.toList = '\x7b' :: fieldsText fields := by
      cases fields with
      | nil => rw [canonicalText_object, fieldTexts_nil]; rfl
      | cons f fs => exact toList_canonicalText_object sorted
    rw [htext]
    exact .object h

/-- A value is all that a text can begin with that begins with the text of the value. -/
def Readable (v : Value) : Prop :=
  ∀ w : Value, w.Ordered → ∀ r s : List Char, Ends r → Ends s →
    v.canonicalText.toList ++ r = w.canonicalText.toList ++ s → v = w ∧ r = s

section Parts

private theorem ends_itemsEnd (xs : List Value) (r : List Char) : Ends (itemsEnd xs ++ r) := by
  cases xs with
  | nil => intro c hc; cases hc; decide
  | cons x xs => intro c hc; cases hc; decide

private theorem ends_fieldsEnd (fs : List (String × Value)) (r : List Char) : Ends (fieldsEnd fs ++ r) := by
  cases fs with
  | nil => intro c hc; cases hc; decide
  | cons f fs => intro c hc; cases hc; decide

private theorem itemsEnd_cons (x : Value) (xs : List Value) (r : List Char) :
    itemsEnd (x :: xs) ++ r = ',' :: (x.canonicalText.toList ++ (itemsEnd xs ++ r)) := by
  simp [itemsEnd]

private theorem fieldsEnd_cons (f : String × Value) (fs : List (String × Value)) (r : List Char) :
    fieldsEnd (f :: fs) ++ r = ',' :: (fieldChars f ++ (fieldsEnd fs ++ r)) := by
  simp [fieldsEnd]

private theorem itemsEnd_append_inj {xs ys : List Value} {r s : List Char} (hxs : ∀ x ∈ xs, Readable x)
    (hys : ∀ y ∈ ys, y.Ordered) (h : itemsEnd xs ++ r = itemsEnd ys ++ s) : xs = ys ∧ r = s := by
  induction xs generalizing ys with
  | nil =>
    cases ys with
    | nil => exact ⟨rfl, (List.cons.inj h).2⟩
    | cons y ys =>
      rw [itemsEnd_cons] at h
      simp [itemsEnd] at h
  | cons x xs ih =>
    cases ys with
    | nil =>
      rw [itemsEnd_cons] at h
      simp [itemsEnd] at h
    | cons y ys =>
      rw [itemsEnd_cons, itemsEnd_cons] at h
      obtain ⟨hx, hxs'⟩ := List.forall_mem_cons.1 hxs
      obtain ⟨hy, hys'⟩ := List.forall_mem_cons.1 hys
      obtain ⟨hxy, htail⟩ := hx y hy _ _ (ends_itemsEnd xs r) (ends_itemsEnd ys s) (List.cons.inj h).2
      obtain ⟨htails, hrest⟩ := ih hxs' hys' htail
      exact ⟨by rw [hxy, htails], hrest⟩

/-- A field determines its name, its value and where it ends. -/
theorem fieldChars_append_inj {f g : String × Value} {r s : List Char} (hf : Readable f.2) (hg : g.2.Ordered)
    (hr : Ends r) (hs : Ends s) (h : fieldChars f ++ r = fieldChars g ++ s) : f = g ∧ r = s := by
  rw [fieldChars, fieldChars, List.append_assoc, List.append_assoc] at h
  obtain ⟨hname, htail⟩ := quote_append_inj h
  obtain ⟨hvalue, hrest⟩ := hf g.2 hg r s hr hs (List.cons.inj htail).2
  exact ⟨Prod.ext hname hvalue, hrest⟩

private theorem fieldsEnd_append_inj {fs gs : List (String × Value)} {r s : List Char} (hfs : ∀ f ∈ fs, Readable f.2)
    (hgs : ∀ g ∈ gs, g.2.Ordered) (h : fieldsEnd fs ++ r = fieldsEnd gs ++ s) : fs = gs ∧ r = s := by
  induction fs generalizing gs with
  | nil =>
    cases gs with
    | nil => exact ⟨rfl, (List.cons.inj h).2⟩
    | cons g gs =>
      rw [fieldsEnd_cons] at h
      simp [fieldsEnd] at h
  | cons f fs ih =>
    cases gs with
    | nil =>
      rw [fieldsEnd_cons] at h
      simp [fieldsEnd] at h
    | cons g gs =>
      rw [fieldsEnd_cons, fieldsEnd_cons] at h
      obtain ⟨hf, hfs'⟩ := List.forall_mem_cons.1 hfs
      obtain ⟨hg, hgs'⟩ := List.forall_mem_cons.1 hgs
      obtain ⟨hfg, htail⟩ :=
        fieldChars_append_inj hf hg (ends_fieldsEnd fs r) (ends_fieldsEnd gs s) (List.cons.inj h).2
      obtain ⟨htails, hrest⟩ := ih hfs' hgs' htail
      exact ⟨by rw [hfg, htails], hrest⟩

/-- No value begins with the end of a list. -/
theorem Form.append_ne_close {v : Value} {cs : List Char} (h : Form v cs) (r s : List Char) :
    cs ++ r ≠ ']' :: s := by
  cases h with
  | word hv => exact hv.append_ne_cons (by decide) r s
  | text => exact fun heq => absurd (List.cons.inj heq).1 (by decide)
  | list => exact fun heq => absurd (List.cons.inj heq).1 (by decide)
  | object => exact fun heq => absurd (List.cons.inj heq).1 (by decide)

private theorem itemsText_append_inj {xs ys : List Value} {r s : List Char} (hxs : ∀ x ∈ xs, x.Ordered)
    (hread : ∀ x ∈ xs, Readable x) (hys : ∀ y ∈ ys, y.Ordered) (h : itemsText xs ++ r = itemsText ys ++ s) :
    xs = ys ∧ r = s := by
  cases xs with
  | nil =>
    cases ys with
    | nil => exact ⟨rfl, (List.cons.inj h).2⟩
    | cons y ys =>
      rw [itemsText, itemsText, List.append_assoc] at h
      exact absurd h.symm ((form_canonicalText (hys y List.mem_cons_self)).append_ne_close _ _)
  | cons x xs =>
    cases ys with
    | nil =>
      rw [itemsText, itemsText, List.append_assoc] at h
      exact absurd h ((form_canonicalText (hxs x List.mem_cons_self)).append_ne_close _ _)
    | cons y ys =>
      -- What begins with items is what stands behind a comma.
      exact itemsEnd_append_inj hread hys (by rw [itemsEnd_cons, itemsEnd_cons]; simpa [itemsText] using h)

private theorem fieldsText_append_inj {fs gs : List (String × Value)} {r s : List Char}
    (hread : ∀ f ∈ fs, Readable f.2) (hgs : ∀ g ∈ gs, g.2.Ordered) (h : fieldsText fs ++ r = fieldsText gs ++ s) :
    fs = gs ∧ r = s := by
  have hquote (f : String × Value) (fs : List (String × Value)) :
      ∃ t, fieldsText (f :: fs) = '\x22' :: t := ⟨_, by rw [fieldsText, fieldChars, quote, String.toList_ofList]; rfl⟩
  cases fs with
  | nil =>
    cases gs with
    | nil => exact ⟨rfl, (List.cons.inj h).2⟩
    | cons g gs =>
      obtain ⟨t, ht⟩ := hquote g gs
      rw [ht] at h
      simp [fieldsText] at h
  | cons f fs =>
    cases gs with
    | nil =>
      obtain ⟨t, ht⟩ := hquote f fs
      rw [ht] at h
      simp [fieldsText] at h
    | cons g gs =>
      exact fieldsEnd_append_inj hread hgs (by rw [fieldsEnd_cons, fieldsEnd_cons]; simpa [fieldsText] using h)

end Parts

/-- A text that begins with a value can be read in one way if the parts of the value can. -/
theorem Form.append_inj {v w : Value} {cs ds r s : List Char} (hv : Form v cs) (hw : Form w ds)
    (hitems : ∀ items, v = .list items → ∀ x ∈ items, Readable x)
    (hfields : ∀ fields, v = .object fields → ∀ f ∈ fields, Readable f.2) (hr : Ends r) (hs : Ends s)
    (h : cs ++ r = ds ++ s) : v = w ∧ r = s := by
  cases hv with
  | word hcs => cases hw with
    | word hds =>
      obtain ⟨rfl, hrest⟩ := word_append_inj hcs.word.2 hds.word.2 hr hs h
      exact ⟨hcs.inj hds, hrest⟩
    | text => exact absurd h (hcs.append_ne_cons (by decide) _ _)
    | list => exact absurd h (hcs.append_ne_cons (by decide) _ _)
    | object => exact absurd h (hcs.append_ne_cons (by decide) _ _)
  | text a => cases hw with
    | word hds => exact absurd h.symm (hds.append_ne_cons (by decide) _ _)
    | text b =>
      rw [List.cons_append, List.cons_append, List.append_assoc, List.append_assoc] at h
      obtain ⟨hchars, hrest⟩ := escaped_append_inj (List.cons.inj h).2
      exact ⟨by rw [String.toList_inj.1 hchars], hrest⟩
    | list => simp at h
    | object => simp at h
  | list hxs => cases hw with
    | word hds => exact absurd h.symm (hds.append_ne_cons (by decide) _ _)
    | text => simp at h
    | list hys =>
      obtain ⟨rfl, hrest⟩ := itemsText_append_inj hxs (hitems _ rfl) hys (List.cons.inj h).2
      exact ⟨rfl, hrest⟩
    | object => simp at h
  | object hfs => cases hw with
    | word hds => exact absurd h.symm (hds.append_ne_cons (by decide) _ _)
    | text => simp at h
    | list => simp at h
    | object hgs =>
      obtain ⟨rfl, hrest⟩ := fieldsText_append_inj (hfields _ rfl) hgs (List.cons.inj h).2
      exact ⟨rfl, hrest⟩

theorem readable {v : Value} (h : v.Ordered) : Readable v := by
  have hscalar {v : Value} (hv : v.Ordered) (hlist : ∀ items, v ≠ .list items)
      (hobject : ∀ fields, v ≠ .object fields) : Readable v := fun w hw r s hr hs heq =>
    (form_canonicalText hv).append_inj (form_canonicalText hw) (fun items hv' => absurd hv' (hlist items))
      (fun fields hv' => absurd hv' (hobject fields)) hr hs heq
  induction h with
  | null => exact hscalar .null nofun nofun
  | bool b => exact hscalar (.bool b) nofun nofun
  | int n => exact hscalar (.int n) nofun nofun
  | float x => exact hscalar (.float x) nofun nofun
  | text s => exact hscalar (.text s) nofun nofun
  | list h ih =>
    intro w hw r s hr hs heq
    refine (form_canonicalText (.list h)).append_inj (form_canonicalText hw) ?_ nofun hr hs heq
    rintro items ⟨⟩
    exact ih
  | object sorted h ih =>
    intro w hw r s hr hs heq
    refine (form_canonicalText (.object sorted h)).append_inj (form_canonicalText hw) nofun ?_ hr hs heq
    intro fields hfields
    rw [object_injective hfields] at ih
    exact ih

end Json

namespace Value

theorem Ordered.eq_of_canonicalText {v w : Value} (hv : v.Ordered) (hw : w.Ordered)
    (h : v.canonicalText = w.canonicalText) : v = w :=
  (Json.readable hv w hw [] [] nofun nofun (by rw [h])).1

/-- The canonical text of plain data determines it up to the order of entries. -/
theorem Plain.reordered_of_canonicalText {v w : Value} (hv : v.Plain) (hw : w.Plain)
    (h : v.canonicalText = w.canonicalText) : v.Reordered w := by
  obtain ⟨v', hv', hvv'⟩ := hv.exists_ordered
  obtain ⟨w', hw', hww'⟩ := hw.exists_ordered
  have htext : v'.canonicalText = w'.canonicalText :=
    calc v'.canonicalText = v.canonicalText := (hvv'.canonicalText_eq hv).symm
      _ = w.canonicalText := h
      _ = w'.canonicalText := hww'.canonicalText_eq hw
  rw [← hv'.eq_of_canonicalText hw' htext] at hww'
  exact hvv'.trans hww'.symm

end Value

/-- A document has a text if and only if no integer in it is too long, and two documents that have texts have the same
one if and only if they are the same up to the order of the entries of objects. -/
theorem render_eq_iff_reordered {v w : Value} (hv : v.Plain) (hw : w.Plain) :
    ((∃ s, v.render = .ok s) ↔ v.Writable) ∧
      (∀ fault, v.render = .error fault ↔ ¬ v.Writable ∧ fault = .digitLimit) ∧
      ∀ s t, v.render = .ok s → w.render = .ok t → (s = t ↔ v.Reordered w) := by
  refine ⟨hv.exists_render_iff, fun fault => hv.render_eq_error_iff, fun s t hs ht => ?_⟩
  obtain ⟨-, rfl⟩ := hv.render_eq_ok_iff.1 hs
  obtain ⟨-, rfl⟩ := hw.render_eq_ok_iff.1 ht
  exact ⟨hv.reordered_of_canonicalText hw, fun h => h.canonicalText_eq hv⟩

theorem render_eq_iff_reordered_zeros :
    let v : Value := .object [("zero", .int 0), ("\n", .null)]
    let w : Value := .object [("\n", .null), ("zero", .int 0)]
    let u : Value := .object [("\n", .null), ("zero", .float (.finite true .zero))]
    v.Plain ∧ w.Plain ∧ u.Plain ∧ (∃ s, v.render = .ok s ∧ w.render = .ok s) ∧
      ∃ s t, w.render = .ok s ∧ u.render = .ok t ∧ s ≠ t := by
  intro v w u
  have hv : v.Plain := .object (by decide) (by simpa using ⟨.int 0, .null⟩)
  have hw : w.Plain := .object (by decide) (by simpa using ⟨.null, .int 0⟩)
  have hu : u.Plain := .object (by decide) (by simpa using ⟨.null, .float _⟩)
  have hvw : v.Reordered w := .of_perm (by decide) (List.Perm.swap _ _ _)
  have hwu : ¬ w.Reordered u := by
    intro h
    have hzero := h.lookup_rel (.key "zero")
    simp only [w, u, Value.lookup, Value.lookupKey_object, List.lookup_cons] at hzero
    cases hzero with
    | some hzero => cases hzero
  have hint : (Value.int 0).Writable := Value.writable_int_iff.2 (by decide)
  have hfloat : (Value.float (.finite true .zero)).Writable := (Value.IsScalar.float _).writable (by simp)
  have hnull : Value.null.Writable := Value.IsScalar.null.writable (by simp)
  obtain ⟨hsome, -, hsame⟩ := render_eq_iff_reordered hv hw
  obtain ⟨hsome', -, hdiffer⟩ := render_eq_iff_reordered hw hu
  obtain ⟨s, hs⟩ := hsome.2 (Value.writable_object_iff.2 (by simpa using ⟨hint, hnull⟩))
  obtain ⟨t, ht⟩ := hsome'.2 (Value.writable_object_iff.2 (by simpa using ⟨hnull, hint⟩))
  obtain ⟨r, hr⟩ := hu.exists_render_iff.2 (Value.writable_object_iff.2 (by simpa using ⟨hnull, hfloat⟩))
  refine ⟨hv, hw, hu, ⟨s, hs, ?_⟩, t, r, ht, hr, mt (hdiffer t r ht hr).1 hwu⟩
  rw [(hsame s t hs ht).2 hvw, ht]

/-- An integer that is too long is the same as itself and has no text. -/
theorem oversized_integer_without_text :
    let v : Value := .int (10 ^ digitLimit)
    v.Plain ∧ v.Reordered v ∧ v.render = .error .digitLimit ∧
      ¬ ∃ s t, v.render = .ok s ∧ v.render = .ok t ∧ (s = t ↔ v.Reordered v) := by
  intro v
  have hv : v.Plain := .int _
  have hrender : v.render = .error .digitLimit := hv.render_eq_digitLimit Value.not_writable_ten_pow
  refine ⟨hv, .refl v, hrender, ?_⟩
  rintro ⟨s, -, hs, -⟩
  cases hrender.symm.trans hs

end Lockstep
