import CodeCompaction.Proofs.Literal.Ends

namespace CodeCompaction.Literal

open CodeCompaction.Text

variable {triple : Bool} {t : Text} {s : Shielded}

section Gaps

theorem holes_slots (h : Shields triple t s) : holes (slots triple t) = List.range s.spans.size := by
  rw [slots, holes_number, h.spans_eq, List.range_eq_range', List.size_toArray]

theorem map_literal_range (s : Shielded) : (List.range s.spans.size).map s.literal = s.spans.toList := by
  refine List.ext_getElem (by simp) (fun i hi hi' => ?_)
  have hsize : i < s.spans.size := by simpa using hi'
  simp [Shielded.literal, hsize]

theorem fill_slots_eq_weave (h : Shields triple t s) {σ : List Slot}
    (hσ : holes σ = holes (slots triple t)) (e : Nat → Text) :
    fill e σ = weave (gaps σ) ((List.range s.spans.size).map e) := by
  rw [fill_eq_weave, hσ, holes_slots h]

end Gaps

section Sentinel

def FirstFree (t : Text) (c : CodePoint) : Prop :=
  ∃ taken rest, sentinels = taken ++ c :: rest ∧ c ∉ t ∧ ∀ d ∈ taken, d ∈ t

theorem firstFree_of_chooseSentinel? {t : Text} {c : CodePoint} (h : chooseSentinel? t = some c) :
    FirstFree t c := by
  obtain ⟨hfree, taken, rest, hsplit, htaken⟩ := List.find?_eq_some_iff_append.mp h
  exact ⟨taken, rest, hsplit, by simpa using hfree, by simpa using htaken⟩

theorem firstFree_of_shield? (h : shield? triple t = some s) (hspans : s.spans ≠ #[]) :
    FirstFree t s.sentinel := by
  rw [shield?] at h
  split at h
  · obtain ⟨c, hc, rfl⟩ := Option.map_eq_some_iff.mp h
    exact firstFree_of_chooseSentinel? hc
  · obtain rfl := Option.some.inj h
    exact absurd rfl hspans

end Sentinel

section Count

theorem sentinel_not_in_tags {c : CodePoint} (hc : c ∈ sentinels) : c ∉ openTag ++ closeTag ++ digits := by
  have h : sentinels.all (fun c => !(openTag ++ closeTag ++ digits).contains c) = true := by decide
  simpa using List.all_eq_true.mp h c hc

theorem count_placeholder {c : CodePoint} (hc : c ∈ sentinels) (i : Nat) :
    (placeholder [c] i).count c = 2 := by
  have htags := sentinel_not_in_tags hc
  simp only [List.mem_append, not_or] at htags
  have hdigits : c ∉ Number.decimal i := fun h => htags.2 (mem_digits_of_mem_decimal h)
  simp only [placeholder, enclosed, List.count_append, List.count_singleton_self,
    List.count_eq_zero.mpr htags.1.1, List.count_eq_zero.mpr htags.1.2, List.count_eq_zero.mpr hdigits]

theorem count_fill_placeholder {c : CodePoint} (hc : c ∈ sentinels) {σ : List Slot} (hσ : Slot.char c ∉ σ) :
    (fill (placeholder [c]) σ).count c = 2 * (holes σ).length := by
  induction σ with
  | nil => rfl
  | cons x σ ih =>
      have hrest := ih (fun h => hσ (List.mem_cons_of_mem _ h))
      cases x with
      | char d =>
          have hd : d ≠ c := fun heq => hσ (heq ▸ List.mem_cons_self ..)
          rw [fill_char, List.count_cons_of_ne hd, hrest, holes_char]
      | hole i =>
          rw [fill_hole, List.count_append, count_placeholder hc, hrest, holes_hole, List.length_cons]
          omega

end Count

theorem not_isQuote_of_hidden : ∀ c ∈ placeholderAlphabet, isQuote c = false :=
  eq_of_hidden (by decide)

namespace Shields

theorem quoted (h : Shields triple t s) : ∀ x ∈ s.spans, ∃ q y, x = q :: y ∧ isQuote q = true := by
  intro x hx
  rw [h.spans_eq, List.mem_toArray] at hx
  exact quoted_of_mem_literals hx

theorem quoteless_text (h : Shields triple t s) : ∀ c ∈ s.text, isQuote c = false := by
  intro c hc
  rw [h.text_eq, mem_fill] at hc
  rcases hc with hc | ⟨i, -, hc⟩
  · exact not_isQuote_of_char_mem_slots hc
  · exact not_isQuote_of_hidden c ((s.hides_seat h.sentinel_mem id i).2 c hc)

theorem count_sentinel (h : Shields triple t s) (hspans : s.spans ≠ #[]) :
    s.text.count s.sentinel = 2 * s.spans.size := by
  have hfree : s.sentinel ∉ t := h.absent.resolve_left hspans
  rw [h.text_eq, Shielded.mark,
    count_fill_placeholder h.sentinel_mem (fun hm => hfree (mem_of_char_mem_slots hm)), holes_slots h,
    List.length_range]

theorem spans_eq_empty_iff (h : Shields triple t s) :
    s.spans = #[] ↔ ∀ c ∈ t, isQuote c = false := by
  constructor
  · intro hempty c hc
    have hnone : holes (slots triple t) = [] := by rw [holes_slots h, hempty]; rfl
    rw [← h.fill_literal, mem_fill] at hc
    rcases hc with hc | ⟨i, hi, -⟩
    · exact not_isQuote_of_char_mem_slots hc
    · exact absurd (mem_holes.mpr hi) (hnone ▸ List.not_mem_nil)
  · intro hquoteless
    have hany : t.any isQuote = false := by simpa using hquoteless
    rw [h.spans_eq, split_of_no_quote hany, literals_map_plain]

end Shields

/-- The texts `gs` and the literals in turn make up the text, and with placeholders in the places of the
literals they make up its shielded form. -/
structure Parts (t : Text) (s : Shielded) (gs : List Text) : Prop where
  length_eq : gs.length = s.spans.size + 1
  quoteless : ∀ g ∈ gs, ∀ c ∈ g, isQuote c = false
  quoted : ∀ x ∈ s.spans, ∃ q y, x = q :: y ∧ isQuote q = true
  text_eq : t = weave gs s.spans.toList
  shielded_eq : ∃ c, c ∉ t ∧ (0 < s.spans.size → c = s.sentinel ∧ FirstFree t c) ∧
    s.text = weave gs ((List.range s.spans.size).map (placeholder [c]))

theorem parts_of_shield? (h : shield? triple t = some s) : Parts t s (gaps (slots triple t)) := by
  have hs := shields_of_shield? h
  have hshielded (c : CodePoint) (hc : s.spans = #[] ∨ c = s.sentinel) : s.text =
      weave (gaps (slots triple t)) ((List.range s.spans.size).map (placeholder [c])) := by
    rw [hs.text_eq, fill_slots_eq_weave hs rfl]
    rcases hc with hempty | rfl
    · rw [hempty]
      rfl
    · rfl
  refine ⟨?_, ?_, hs.quoted, ?_, ?_⟩
  · rw [length_gaps, holes_slots hs, List.length_range]
  · exact fun g hg c hc => not_isQuote_of_char_mem_slots (char_mem_of_mem_gaps hg hc)
  · rw [← map_literal_range, ← fill_slots_eq_weave hs rfl, hs.fill_literal]
  · by_cases hempty : s.spans = #[]
    · -- no placeholder shows which character it would have stood between, so any absent one will do
      refine ⟨'"', fun hmem => ?_, fun hpos => absurd hpos (by simp [hempty]), hshielded _ (.inl hempty)⟩
      exact absurd (hs.spans_eq_empty_iff.mp hempty _ hmem) (by decide)
    · have hfirst := firstFree_of_shield? h hempty
      obtain ⟨-, -, -, hfree, -⟩ := id hfirst
      exact ⟨s.sentinel, hfree, fun _ => ⟨rfl, hfirst⟩, hshielded _ (.inr rfl)⟩

theorem shield_parts_text (triple : Bool) (t : Text) :
    (shield? triple t = none ↔ (∃ c ∈ t, isQuote c = true) ∧ ∀ c ∈ sentinels, c ∈ t) ∧
    ∀ s, shield? triple t = some s →
      (∃ gs, Parts t s gs) ∧
      (s.spans.size = 0 ↔ ∀ c ∈ t, isQuote c = false) ∧
      (∀ c ∈ s.text, isQuote c = false) ∧
      (0 < s.spans.size → s.text.count s.sentinel = 2 * s.spans.size) ∧
      ∀ triple', ∃ s', shield? triple' s.text = some s' ∧ s'.text = s.text ∧ s'.spans = #[] := by
  refine ⟨shield?_eq_none_iff, fun s h => ?_⟩
  have hs := shields_of_shield? h
  refine ⟨⟨_, parts_of_shield? h⟩, ?_, hs.quoteless_text, fun hpos => ?_, fun triple' => ?_⟩
  · rw [Array.size_eq_zero_iff, hs.spans_eq_empty_iff]
  · exact hs.count_sentinel (Array.size_pos_iff.mp hpos)
  · exact ⟨_, shield?_of_quoteless hs.quoteless_text, rfl, rfl⟩

theorem shield_parts_text_around_open_template :
    ∃ s, shield? false "\x00='a\\'b' + \x60c".toText = some s ∧ s.sentinel = '\x01' ∧
      (∃ gs, Parts "\x00='a\\'b' + \x60c".toText s gs) ∧ s.text.count s.sentinel = 4 := by
  let s : Shielded := {
    text := "\x00=\x01STR0END\x01 + \x01STR1END\x01".toText
    spans := #["'a\\'b'".toText, "\x60c".toText]
    sentinel := '\x01' }
  have hs : shield? false "\x00='a\\'b' + \x60c".toText = some s := by cbv
  obtain ⟨hparts, -, -, hcount, -⟩ := (shield_parts_text false _).2 s hs
  exact ⟨s, hs, rfl, hparts, hcount (by decide)⟩

end CodeCompaction.Literal
