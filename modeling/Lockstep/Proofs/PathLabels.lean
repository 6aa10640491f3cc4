import Lockstep.Proofs.FrameTrails
import Lockstep.Proofs.UniqueReading

/-! Paths identify places. The text of a position is over at the bracket behind its digits, and the text of a key at
the quote behind its name, so a path can be read back from left to right in one way only, whatever digits and brackets
the names hold. Names stand in paths as they are, so a double quote inside of one could be taken for its end. -/

namespace Lockstep

/-- A part without a mark is over at the first mark. -/
theorem append_cons_inj_of_not_mem {mark : Char} {cs ds r s : List Char} (hcs : mark ∉ cs) (hds : mark ∉ ds)
    (h : cs ++ mark :: r = ds ++ mark :: s) : cs = ds ∧ r = s := by
  have hunmarked {es : List Char} (hes : mark ∉ es) : ∀ c ∈ es, (c == mark) = false :=
    fun c hc => beq_false_of_ne fun heq => hes (heq ▸ hc)
  obtain ⟨rfl, hrest⟩ := word_append_inj (hunmarked hcs) (hunmarked hds) (by simp) (by simp) h
  exact ⟨rfl, (List.cons.inj hrest).2⟩

namespace Segment
variable {s t : Segment}

/-- The segment is a position, or a key without a double quote in its name. -/
def Unquoted : Segment → Prop
  | .key name => '\x22' ∉ name.toList
  | .index _ => True

instance : DecidablePred Unquoted
  | .key name => inferInstanceAs (Decidable ('\x22' ∉ name.toList))
  | .index _ => inferInstanceAs (Decidable True)

private theorem text_key_append (name : String) (r : List Char) :
    (key name).text.toList ++ r = '[' :: '\x22' :: (name.toList ++ '\x22' :: ']' :: r) := by
  simp [text]

private theorem text_index_append (position : Nat) (r : List Char) :
    (index position).text.toList ++ r = '[' :: (Nat.toDigits 10 position ++ ']' :: r) := by
  simp [text]

private theorem not_mem_toDigits {c : Char} (hc : c.isDigit = false) (n : Nat) : c ∉ Nat.toDigits 10 n := by
  intro hmem
  rw [isDigit_toDigits n c hmem] at hc
  cases hc

/-- No position begins with a quote. -/
theorem toDigits_append_ne (n : Nat) (r s : List Char) : Nat.toDigits 10 n ++ r ≠ '\x22' :: s := by
  intro h
  obtain ⟨c, cs, hcs⟩ := List.exists_cons_of_ne_nil (Nat.toDigits_ne_nil (n := n) (b := 10))
  rw [hcs] at h
  obtain ⟨rfl, -⟩ := List.cons.inj h
  exact not_mem_toDigits (by decide) n (hcs ▸ List.mem_cons_self)

/-- A text that begins with the text of a segment determines the segment and where it ends. -/
theorem text_append_inj {r u : List Char} (hs : s.Unquoted) (ht : t.Unquoted)
    (h : s.text.toList ++ r = t.text.toList ++ u) : s = t ∧ r = u := by
  cases s with
  | key name =>
    rw [text_key_append] at h
    cases t with
    | key name' =>
      rw [text_key_append] at h
      obtain ⟨hname, hrest⟩ := append_cons_inj_of_not_mem hs ht (List.cons.inj (List.cons.inj h).2).2
      exact ⟨congrArg key (String.toList_inj.1 hname), (List.cons.inj hrest).2⟩
    | index position =>
      rw [text_index_append] at h
      exact absurd (List.cons.inj h).2.symm (toDigits_append_ne position _ _)
  | index position =>
    rw [text_index_append] at h
    cases t with
    | key name =>
      rw [text_key_append] at h
      exact absurd (List.cons.inj h).2 (toDigits_append_ne position _ _)
    | index position' =>
      rw [text_index_append] at h
      have hbracket (n : Nat) : ']' ∉ Nat.toDigits 10 n := not_mem_toDigits (by decide) n
      obtain ⟨hdigits, hrest⟩ :=
        append_cons_inj_of_not_mem (hbracket position) (hbracket position') (List.cons.inj h).2
      exact ⟨congrArg index (toDigits_inj hdigits), hrest⟩

end Segment

/-- The texts of segments, one after another. -/
def segmentsText (segments : List Segment) : List Char := segments.flatMap fun segment => segment.text.toList

/-- Segments are written as the beginning of others if and only if these begin with them. -/
theorem segmentsText_prefix_iff {ss ts : List Segment} (hss : ∀ s ∈ ss, s.Unquoted) (hts : ∀ t ∈ ts, t.Unquoted) :
    segmentsText ss <+: segmentsText ts ↔ ss <+: ts := by
  constructor
  · intro h
    -- What is left of both behind a common segment is written in the same relation.
    induction ss generalizing ts with
    | nil => exact List.nil_prefix
    | cons s ss ih =>
      obtain ⟨hs, hss⟩ := List.forall_mem_cons.1 hss
      obtain ⟨r, hr⟩ := h
      rw [segmentsText, List.flatMap_cons, List.append_assoc] at hr
      cases ts with
      | nil => cases s <;> simp [Segment.text, segmentsText] at hr
      | cons t ts =>
        obtain ⟨ht, hts'⟩ := List.forall_mem_cons.1 hts
        obtain ⟨rfl, hrest⟩ := Segment.text_append_inj hs ht hr
        exact List.cons_prefix_cons.2 ⟨rfl, ih hss hts' ⟨r, hrest⟩⟩
  · rintro ⟨further, rfl⟩
    rw [segmentsText, segmentsText, List.flatMap_append]
    exact List.prefix_append _ _

namespace Trail
variable {s t : Trail}

/-- No key on the trail has a double quote in its name. -/
def Unquoted (trail : Trail) : Prop := ∀ segment ∈ trail, segment.Unquoted

instance : DecidablePred Unquoted := fun trail => List.decidableBAll Segment.Unquoted trail

private theorem toList_label (root : String) (trail : Trail) :
    (label root trail).toList = root.toList ++ segmentsText trail.reverse := by
  induction trail with
  | nil => exact (List.append_nil _).symm
  | cons segment trail ih =>
    rw [label, String.toList_append, ih, segmentsText, segmentsText, List.reverse_cons, List.flatMap_append,
      List.flatMap_singleton, List.append_assoc]

/-- A label begins with another one if and only if its place lies at or below the place of the other. -/
theorem label_prefix_iff (root : String) (hs : s.Unquoted) (ht : t.Unquoted) :
    (label root s).toList <+: (label root t).toList ↔ s <:+ t := by
  have hs' : ∀ segment ∈ s.reverse, segment.Unquoted := fun segment h => hs segment (List.mem_reverse.1 h)
  have ht' : ∀ segment ∈ t.reverse, segment.Unquoted := fun segment h => ht segment (List.mem_reverse.1 h)
  rw [toList_label, toList_label, List.prefix_append_right_inj, segmentsText_prefix_iff hs' ht', List.reverse_prefix]

theorem label_inj (root : String) (hs : s.Unquoted) (ht : t.Unquoted) : label root s = label root t ↔ s = t := by
  refine ⟨fun h => ?_, fun h => h ▸ rfl⟩
  have hst : s <:+ t := (label_prefix_iff root hs ht).1 (h ▸ List.prefix_refl _)
  have hts : t <:+ s := (label_prefix_iff root ht hs).1 (h ▸ List.prefix_refl _)
  exact hst.eq_of_length (Nat.le_antisymm hst.length_le hts.length_le)

/-- Behind a double quote, a name can go on as a further segment would. -/
example : label "subject" [.key "b", .key "a"] = label "subject" [.key "a\"][\"b"] := by decide

end Trail

/-- Paths identify places. Where runs lead below one label, through positions and keys without double quotes, two
paths are the same text if and only if the same keys and positions have led to both, and one begins with the other if
and only if its place lies at or below the place of the other. -/
theorem paths_identify_places {root : String} {p q : Program} {document other host guest : Value}
    {descents steps : List Descent} {f g : Frame} (hf : Frame.Descends ⟨p, document, host, root⟩ descents f)
    (hg : Frame.Descends ⟨q, other, guest, root⟩ steps g) (hfq : (trailOf descents).Unquoted)
    (hgq : (trailOf steps).Unquoted) :
    (f.path = g.path ↔ trailOf descents = trailOf steps) ∧
    (f.path.toList <+: g.path.toList ↔ trailOf descents <:+ trailOf steps) ∧
    (document = other → f.path = g.path → f.node = g.node) := by
  have hsame : f.path = g.path ↔ trailOf descents = trailOf steps := by
    rw [hf.inStep.path_eq, hg.inStep.path_eq]
    exact Trail.label_inj root hfq hgq
  have hbelow : f.path.toList <+: g.path.toList ↔ trailOf descents <:+ trailOf steps := by
    rw [hf.inStep.path_eq, hg.inStep.path_eq]
    exact Trail.label_prefix_iff root hfq hgq
  refine ⟨hsame, hbelow, ?_⟩
  rintro rfl hpath
  have hnode := hf.inStep.follow_eq
  rw [hsame.1 hpath, hg.inStep.follow_eq] at hnode
  exact (Option.some.inj hnode).symm

/-- A name that looks like the end of a segment and a position. -/
theorem paths_identify_places_brackets :
    let document : Value := .object [("rows", .list [.null]), ("rows][0", .bool true)]
    let p : Program := .descend (.key "rows") .ok none fun _ =>
      .ok (.descend (.index 0) .ok none fun host => .ok (.done host))
    let q : Program := .key "rows][0"
    let descents : List Descent := [⟨.index 0, .ok⟩, ⟨.key "rows", .ok⟩]
    let steps : List Descent := [⟨.key "rows][0", .ok⟩]
    let f : Frame := ⟨.done .null, .null, .null, "subject[\"rows\"][0]"⟩
    let g : Frame := ⟨.done .null, .bool true, .null, "subject[\"rows][0\"]"⟩
    Frame.Descends ⟨p, document, .null, "subject"⟩ descents f ∧
      Frame.Descends ⟨q, document, .null, "subject"⟩ steps g ∧
      (trailOf descents).Unquoted ∧ (trailOf steps).Unquoted ∧
      f.path ≠ g.path ∧ ¬ f.path.toList <+: g.path.toList := by
  intro document p q descents steps f g
  have hrows : document.find (.key "rows") = .ok (some (.list [.null])) :=
    Value.find_eq_some_iff.2 (Value.lookupKey_object _ "rows")
  have hbrackets : document.find (.key "rows][0") = .ok (some (.bool true)) :=
    Value.find_eq_some_iff.2 (Value.lookupKey_object _ "rows][0")
  have hf : Frame.Descends ⟨p, document, .null, "subject"⟩ descents f := by
    have hfirst : Frame.advance ⟨p, document, .null, "subject"⟩ = .go [⟨.descend (.index 0) .ok none fun host =>
        .ok (.done host), .list [.null], .null, "subject[\"rows\"]"⟩] := by
      simp only [Frame.advance, p, hrows]
      rfl
    exact .step (.step .start hfirst List.mem_cons_self) rfl List.mem_cons_self
  have hg : Frame.Descends ⟨q, document, .null, "subject"⟩ steps g := by
    have hfirst : Frame.advance ⟨q, document, .null, "subject"⟩ = .go [g] := by
      simp only [Frame.advance, q, Program.key, hbrackets]
      rfl
    exact .step .start hfirst List.mem_cons_self
  have hfq : (trailOf descents).Unquoted := by decide
  have hgq : (trailOf steps).Unquoted := by decide
  obtain ⟨hsame, hbelow, -⟩ := paths_identify_places hf hg hfq hgq
  exact ⟨hf, hg, hfq, hgq, mt hsame.1 (by decide), mt hbelow.1 (by decide)⟩

end Lockstep
