import CodeCompaction.Proofs.Comment.DocRows
import CodeCompaction.Proofs.Comment.Opacity
import CodeCompaction.Proofs.Literal.Framing

namespace CodeCompaction.Comment

open CodeCompaction.Text CodeCompaction.Literal

/-- What the deletions leave of a shielded text: texts without the sentinel and placeholders in turn. -/
structure Remains (g : Grammar) (s : Shielded) (hs : List Text) (is : List Nat) : Prop where
  length_eq : hs.length = is.length + 1
  absent : ∀ h ∈ hs, s.sentinel ∉ h
  index_lt : ∀ i ∈ is, i < s.spans.size
  text_eq : delete g (some s) s.text = weave hs (is.map (placeholder s.mark))

theorem quoteless_of_thinned {hs gs : List Text} (h : List.Forall₂ Thinned hs gs)
    (hg : ∀ g ∈ gs, ∀ c ∈ g, isQuote c = false) : ∀ g ∈ hs, ∀ c ∈ g, isQuote c = false := by
  induction h with
  | nil => simp
  | cons hhead _ ih =>
      intro g hmem
      rcases List.mem_cons.mp hmem with rfl | hmem
      · intro c hc
        exact hg _ (List.mem_cons_self ..) c (hhead.sublist.subset hc)
      · refine ih ?_ g hmem
        intro g' hg'
        exact hg g' (List.mem_cons_of_mem _ hg')

section Remains

variable {ext t : Text} {g : Grammar} {s : Shielded}

theorem pass_quoteless : ∀ c ∈ "pass\n".toText, isQuote c = false := by
  have h : "pass\n".toText.all (fun c => !isQuote c) = true := by decide
  intro c hc
  simpa using List.all_eq_true.mp h c hc

theorem exists_remaining_row (hg : isVisibleGrammar g = true) (hs : Shields g.triple t s) :
    ∃ ω, Frames s.literal ω ∧ (s.sentinel ∉ t → Slot.char s.sentinel ∉ ω) ∧
      (∀ i, Slot.hole i ∈ ω → Slot.hole i ∈ slots g.triple t) ∧
      delete g (some s) s.text = fill (placeholder s.mark) ω := by
  obtain ⟨ω, hedits, hdelete⟩ :=
    exists_delete_fill hg (fun j => (s.spans[j]?).any isDoc) (slots g.triple t)
  have hseats : Seats s id (fun j => (s.spans[j]?).any isDoc) (slots g.triple t) :=
    ⟨hs.sentinel_mem, hs.absent.imp id (fun hc hm => hc (mem_of_char_mem_slots hm)), fun _ _ => rfl⟩
  have hhole : ∀ i, Slot.hole i ∈ ω → Slot.hole i ∈ slots g.triple t := fun i => hole_mem_of_edits hedits
  refine ⟨ω, ⟨?_, ?_, hedits.keeps _ hs.keeps⟩, sentinel_absent_of_edits hedits hs.sentinel_mem, hhole, ?_⟩
  · intro c hc
    rcases hedits.char_mem c hc with hc | hc
    · exact not_isQuote_of_char_mem_slots hc
    · exact pass_quoteless c hc
  · intro i hi
    have hspan := hs.literal_eq (hhole i hi)
    rw [hs.spans_eq, List.getElem?_toArray] at hspan
    exact quoted_of_mem_literals (List.mem_of_getElem? hspan)
  · have := hdelete s id hseats
    rw [hs.text_eq]
    exact this

theorem Remains.lay_eq {hs : List Text} {is : List Nat} (h : Remains g s hs is)
    (hshields : Shields g.triple t s) {ω : Row} (hchar : s.sentinel ∉ t → Slot.char s.sentinel ∉ ω)
    (hhole : ∀ i, Slot.hole i ∈ ω → Slot.hole i ∈ slots g.triple t)
    (hω : delete g (some s) s.text = fill (placeholder s.mark) ω) : lay hs is = ω := by
  rcases hshields.absent with hempty | hfree
  · -- a text without literals: the row is a text, and so is the reading
    obtain rfl : is = [] := by
      apply List.eq_nil_iff_forall_not_mem.mpr
      intro i hi
      have hlt := h.index_lt i hi
      simp [hempty] at hlt
    have hnone : holes ω = [] := by
      apply List.eq_nil_iff_forall_not_mem.mpr
      intro i hi
      have hspan := hshields.literal_eq (hhole i (mem_holes.mp hi))
      simp [hempty] at hspan
    have hlay := lay_gaps_holes ω
    have hlen := length_gaps ω
    rw [hnone] at hlay hlen
    obtain ⟨w, hw⟩ := List.length_eq_one_iff.mp hlen
    obtain ⟨v, rfl⟩ := List.length_eq_one_iff.mp h.length_eq
    rw [hw] at hlay
    have htext := h.text_eq.symm.trans hω
    rw [← hlay, lay, fill_ofText] at htext
    rw [← hlay, ← htext]
    rfl
  · refine fill_placeholder_injective (c := s.sentinel) ?_ (hchar hfree) ?_
    · intro hc
      obtain ⟨v, hv, hmem⟩ := char_mem_lay hc
      exact h.absent v hv hmem
    · rw [fill_lay]
      exact h.text_eq.symm.trans hω

theorem remove_keeps_literals_iff (hg : grammarOf? ext = some g) (hp : g.protects = true)
    (hsize : withinSize t = true) (hs : shield? g.triple t = some s) :
    (s.sentinel ∉ t → ∃ hs is, Remains g s hs is) ∧
    ∀ hs is, Remains g s hs is →
      ((∃ hs', List.Forall₂ Thinned hs' hs ∧ remove ext t = weave hs' (is.map s.literal)) ↔
        ∀ i ∈ is, tidy (s.literal i) = s.literal i) := by
  have hshields := shields_of_shield? hs
  obtain ⟨ω, hframes, hchar, hhole, hdelete⟩ :=
    exists_remaining_row (isVisibleGrammar_of_grammarOf? hg hp) hshields
  have hremove : remove ext t = tidied (fill s.literal ω) := by
    rw [remove_of_shield? hg hp hsize hs, hdelete, hshields.restore_fill hchar hhole]
  refine ⟨fun hfree => ⟨gaps ω, holes ω, length_gaps ω, ?_, ?_, ?_⟩, fun hs is hremains => ?_⟩
  · intro h hmem hc
    exact hchar hfree (char_mem_of_mem_gaps hmem hc)
  · intro i hi
    have hspan := hshields.literal_eq (hhole i (mem_holes.mp hi))
    exact (Array.getElem?_eq_some_iff.mp hspan).1
  · rw [hdelete, fill_eq_weave]
  · have hlay := hremains.lay_eq hshields hchar hhole hdelete
    have hgaps := gaps_lay hremains.length_eq
    have hholes := holes_lay hremains.length_eq
    rw [hlay] at hgaps hholes
    simp only [tidy_eq_tidied]
    rw [hremove, ← hholes, ← hgaps]
    constructor
    · rintro ⟨hs', hthin, heq⟩
      have hquoteless : ∀ h ∈ gaps ω, ∀ c ∈ h, isQuote c = false := by
        intro h hmem c hc
        exact hframes.quoteless c (char_mem_of_mem_gaps hmem hc)
      apply tidied_literal_of_weave hframes _ (quoteless_of_thinned hthin hquoteless) heq
      rw [hthin.length_eq, length_gaps]
    · exact exists_thinned hframes

end Remains

theorem remove_keeps_tidy_template : ∃ hs',
    List.Forall₂ Thinned hs' ["x = ".toText, ";  \n\n\n\ny \n".toText] ∧
      remove "js".toText "x = \x60a\n  b\x60;  \n\n\n\ny // 'c'\n".toText =
        weave hs' ["\x60a\n  b\x60".toText] := by
  let s : Shielded := {
    text := "x = \x00STR0END\x00;  \n\n\n\ny // \x00STR1END\x00\n".toText
    spans := #["\x60a\n  b\x60".toText, "'c'".toText]
    sentinel := '\x00' }
  have hs : shield? slashStar.triple "x = \x60a\n  b\x60;  \n\n\n\ny // 'c'\n".toText = some s := by cbv
  have hremains : Remains slashStar s ["x = ".toText, ";  \n\n\n\ny \n".toText] [0] :=
    ⟨rfl, by decide, by decide, (delete_of_not_doc rfl _ _).trans (by cbv)⟩
  refine ((remove_keeps_literals_iff (by decide) rfl (by cbv) hs).2 _ _ hremains).mpr ?_
  intro i hi
  obtain rfl := List.mem_singleton.mp hi
  cbv

theorem not_keeps_template_with_blank :
    ¬ ∀ (ext t : Text) (g : Grammar) (s : Shielded) (hs : List Text) (is : List Nat),
      grammarOf? ext = some g → g.protects = true → withinSize t = true →
      shield? g.triple t = some s → Remains g s hs is →
        ∃ hs', List.Forall₂ Thinned hs' hs ∧ remove ext t = weave hs' (is.map s.literal) := by
  intro h
  let s : Shielded := {
    text := "x = \x00STR0END\x00\n".toText
    spans := #["\x60a \nb\x60".toText]
    sentinel := '\x00' }
  have hremains : Remains slashStar s ["x = ".toText, "\n".toText] [0] :=
    ⟨rfl, by decide, by decide, (delete_of_not_doc rfl _ _).trans (by cbv)⟩
  obtain ⟨hs', hthin, heq⟩ := h "js".toText "x = \x60a \nb\x60\n".toText slashStar s _ _ (by decide) rfl
    (by cbv) (by cbv) hremains
  have hremove : remove "js".toText "x = \x60a \nb\x60\n".toText = "x = \x60a\nb\x60\n".toText := by cbv
  obtain ⟨g₀, gs, hfirst, -, rfl⟩ := List.forall₂_cons_right_iff.mp hthin
  have hfree : ∀ c ∈ g₀, (c != '\x60') = true := by
    have hall : "x = ".toText.all (· != '\x60') = true := by decide
    intro c hc
    exact List.all_eq_true.mp hall c (hfirst.sublist.subset hc)
  -- from the first backtick on, one text holds the blank and the other does not
  have hdrop := congrArg (List.dropWhile (· != ch '\x60')) (hremove.symm.trans heq)
  rw [List.map_cons, weave, List.append_assoc, List.dropWhile_append_of_pos hfree] at hdrop
  simp [Shielded.literal, s] at hdrop

end CodeCompaction.Comment
