import CodeCompaction.Minify.Basic
import CodeCompaction.Proofs.Literal.Parting
import CodeCompaction.Proofs.Literal.Rows
import CodeCompaction.Proofs.Minify.LineByLine

namespace CodeCompaction.Minify

open CodeCompaction.Text CodeCompaction.Literal CodeCompaction.Comment

abbrev charTest (q : CodePoint → Bool) : Slot → Bool := Slot.test q false

def compactRow (ρ : Row) : Row :=
  let trimmed := ρ.rdropWhile (charTest isInlineBlank)
  (if trimmed.head?.any (charTest isInlineBlank) then [.char ' '] else []) ++
    trimmed.dropWhile (charTest isInlineBlank)

def compactRows (σ : Row) : Row :=
  let kept := ((rows σ).filter (fun ρ => !ρ.all (charTest isInlineBlank))).map compactRow
  ((joinRows kept).dropWhile (charTest isBlank)).rdropWhile (charTest isBlank)

section Fill

variable {e : Nat → Text}

theorem not_isInlineBlank_of_hidden : ∀ c ∈ placeholderAlphabet, isInlineBlank c = false :=
  eq_of_hidden (by decide)

theorem rdropWhile_fill {q : CodePoint → Bool} (hq : ∀ c ∈ placeholderAlphabet, q c = false) (he : Hides e)
    (σ : Row) : (fill e σ).rdropWhile q = fill e (σ.rdropWhile (charTest q)) := by
  rw [List.rdropWhile, reverse_fill, dropWhile_fill hq he.reverse, reverse_fill]
  simp only [List.reverse_reverse, List.rdropWhile]

theorem fill_compactRow (he : Hides e) (ρ : Row) : fill e (compactRow ρ) = compactLine (fill e ρ) := by
  rw [compactLine, rdropWhile_fill not_isInlineBlank_of_hidden he, shortenIndent,
    head?_any_fill not_isInlineBlank_of_hidden he, dropWhile_fill not_isInlineBlank_of_hidden he,
    compactRow, fill_append]
  split <;> rfl

theorem fill_compactRows (he : Hides e) (σ : Row) :
    fill e (compactRows σ) = strip (lineByLine (fill e σ)) := by
  have hkept : (fun l : Text => !l.all isInlineBlank) ∘ fill e =
      fun ρ => !ρ.all (charTest isInlineBlank) := by
    funext ρ
    rw [Function.comp_apply, all_fill not_isInlineBlank_of_hidden he]
  have hline : compactLine ∘ fill e = fill e ∘ compactRow := by
    funext ρ
    exact (fill_compactRow he ρ).symm
  rw [lineByLine, lines_fill he, List.filter_map, hkept, List.map_map, hline, ← List.map_map,
    ← fill_joinRows, strip, lstrip_fill he]
  exact (rdropWhile_fill not_isBlank_of_hidden he _).symm

end Fill

def inkSlots (σ : Row) : Row := σ.filter (fun x => !charTest isBlank x)

section Ink

theorem inkSlots_append (σ τ : Row) : inkSlots (σ ++ τ) = inkSlots σ ++ inkSlots τ :=
  List.filter_append ..

theorem inkSlots_of_blank {σ : Row} (h : ∀ x ∈ σ, charTest isBlank x = true) : inkSlots σ = [] :=
  List.filter_eq_nil_iff.mpr (fun x hx => by simp [h x hx])

theorem charTest_of_isInlineBlank {x : Slot} (h : charTest isInlineBlank x = true) :
    charTest isBlank x = true := by
  cases x with
  | char c => exact isBlank_of_isInlineBlank h
  | hole i => exact h

theorem inkSlots_dropWhile {q : Slot → Bool} (hq : ∀ x, q x = true → charTest isBlank x = true)
    (σ : Row) : inkSlots (σ.dropWhile q) = inkSlots σ := by
  have hfront : inkSlots (σ.takeWhile q) = [] :=
    inkSlots_of_blank (fun x hx => hq x (List.mem_takeWhile_imp hx))
  conv_rhs => rw [← List.takeWhile_append_dropWhile (p := q) (l := σ), inkSlots_append, hfront,
    List.nil_append]

theorem inkSlots_rdropWhile {q : Slot → Bool} (hq : ∀ x, q x = true → charTest isBlank x = true)
    (σ : Row) : inkSlots (σ.rdropWhile q) = inkSlots σ := by
  have hback : inkSlots (σ.rtakeWhile q) = [] :=
    inkSlots_of_blank (fun x hx => hq x (List.mem_rtakeWhile_imp hx))
  conv_rhs => rw [← List.rdropWhile_append_rtakeWhile (p := q) (l := σ), inkSlots_append, hback,
    List.append_nil]

theorem inkSlots_compactRow (ρ : Row) : inkSlots (compactRow ρ) = inkSlots ρ := by
  rw [compactRow, inkSlots_append, inkSlots_dropWhile (fun _ => charTest_of_isInlineBlank),
    inkSlots_rdropWhile (fun _ => charTest_of_isInlineBlank)]
  split <;> rfl

theorem inkSlots_joinRows (rs : List Row) : inkSlots (joinRows rs) = rs.flatMap inkSlots := by
  induction rs with
  | nil => rfl
  | cons ρ rs ih =>
      cases rs with
      | nil => simp
      | cons ρ' rs =>
          rw [joinRows_cons_of_ne_nil _ (List.cons_ne_nil _ _), inkSlots_append, List.flatMap_cons, ← ih]
          rfl

theorem flatMap_inkSlots_kept (rs : List Row) :
    ((rs.filter (fun ρ => !ρ.all (charTest isInlineBlank))).map compactRow).flatMap inkSlots =
      rs.flatMap inkSlots := by
  induction rs with
  | nil => rfl
  | cons ρ rs ih =>
      cases hall : ρ.all (charTest isInlineBlank) with
      | false =>
          rw [List.filter_cons_of_pos (by simp [hall]), List.map_cons, List.flatMap_cons,
            inkSlots_compactRow, ih, List.flatMap_cons]
      | true =>
          have hblank : inkSlots ρ = [] := inkSlots_of_blank
            (fun x hx => charTest_of_isInlineBlank (List.all_eq_true.mp hall x hx))
          rw [List.filter_cons_of_neg (by simp [hall]), ih, List.flatMap_cons, hblank,
            List.nil_append]

theorem inkSlots_compactRows (σ : Row) : inkSlots (compactRows σ) = inkSlots σ := by
  rw [compactRows, inkSlots_rdropWhile (fun _ => id), inkSlots_dropWhile (fun _ => id),
    inkSlots_joinRows, flatMap_inkSlots_kept, ← inkSlots_joinRows, joinRows_rows]

theorem mem_inkSlots {σ : Row} {x : Slot} :
    x ∈ inkSlots σ ↔ x ∈ σ ∧ charTest isBlank x = false := by
  simp [inkSlots]

theorem holes_inkSlots (σ : Row) : holes (inkSlots σ) = holes σ := by
  induction σ with
  | nil => rfl
  | cons x σ ih =>
      cases x with
      | hole i => exact congrArg (i :: ·) ih
      | char c =>
          cases hc : isBlank c <;> simp_all [inkSlots]

def ink (t : Text) : Text := t.filter (fun c => !isBlank c)

theorem map_ink_gaps (σ : Row) : (gaps σ).map ink = gaps (inkSlots σ) := by
  induction σ with
  | nil => rfl
  | cons x σ ih =>
      cases x with
      | hole i => exact congrArg ([] :: ·) ih
      | char c =>
          obtain ⟨g, gs, hg⟩ : ∃ g gs, gaps σ = g :: gs :=
            List.exists_cons_of_length_eq_add_one (length_gaps σ)
          rw [gaps, hg, List.modifyHead_cons, List.map_cons]
          rw [hg, List.map_cons] at ih
          cases hc : isBlank c with
          | true =>
              have hσ : inkSlots (.char c :: σ) = inkSlots σ := List.filter_cons_of_neg (by simp [hc])
              have hink : ink (c :: g) = ink g := List.filter_cons_of_neg (by simp [hc])
              rw [hσ, hink, ih]
          | false =>
              have hσ : inkSlots (.char c :: σ) = .char c :: inkSlots σ :=
                List.filter_cons_of_pos (by simp [hc])
              have hink : ink (c :: g) = c :: ink g := List.filter_cons_of_pos (by simp [hc])
              rw [hσ, hink, gaps, ← ih, List.modifyHead_cons]

end Ink

section Shield

variable {triple : Bool} {t : Text} {s : Shielded}

theorem holes_compactRows (σ : Row) : holes (compactRows σ) = holes σ := by
  rw [← holes_inkSlots, inkSlots_compactRows, holes_inkSlots]

theorem char_mem_of_mem_compactRows {σ : Row} {c : CodePoint} (hc : isBlank c = false)
    (h : Slot.char c ∈ compactRows σ) : Slot.char c ∈ σ := by
  have hink : Slot.char c ∈ inkSlots (compactRows σ) := mem_inkSlots.mpr ⟨h, hc⟩
  rw [inkSlots_compactRows] at hink
  exact (mem_inkSlots.mp hink).1

theorem restore_compactRows (h : Shields triple t s) :
    s.restore (fill (placeholder s.mark) (compactRows (slots triple t))) =
      fill s.literal (compactRows (slots triple t)) := by
  refine h.restore_fill (fun hfree hm => ?_) (fun i hi => ?_)
  · have hblank := sentinels_not_blank _ h.sentinel_mem
    exact hfree (mem_of_char_mem_slots (char_mem_of_mem_compactRows hblank hm))
  · rw [← mem_holes, holes_compactRows, mem_holes] at hi
    exact hi

end Shield

theorem value_generic {ext t : Text} {s : Shielded}
    (h : shield? ((grammarOf? ext).any (·.triple)) t = some s) :
    (generic ext t).value = s.restore (compactLines s.text) := by
  simp only [generic, tryShield, h, Logged.value_bind, Logged.value_pure]

theorem generic_line_by_line {ext t : Text} {s : Shielded}
    (h : shield? ((grammarOf? ext).any (·.triple)) t = some s) :
    (generic ext t).value = s.restore (strip (lineByLine s.text)) ∧
    inkLines (strip (lineByLine s.text)) = inkLines s.text ∧
    ∃ gs gs' : List Text, gs.length = s.spans.size + 1 ∧ gs'.map ink = gs.map ink ∧
      s.text = weave gs ((List.range s.spans.size).map (placeholder s.mark)) ∧
      strip (lineByLine s.text) = weave gs' ((List.range s.spans.size).map (placeholder s.mark)) ∧
      t = weave gs s.spans.toList ∧ (generic ext t).value = weave gs' s.spans.toList := by
  have hs := shields_of_shield? h
  have hides : Hides (placeholder s.mark) := s.hides_seat hs.sentinel_mem id
  have hvalue : (generic ext t).value = s.restore (strip (lineByLine s.text)) := by
    rw [value_generic h, compactLines_eq_strip_lineByLine]
  have hrow : strip (lineByLine s.text) =
      fill (placeholder s.mark) (compactRows (slots ((grammarOf? ext).any (·.triple)) t)) := by
    rw [hs.text_eq, fill_compactRows hides]
  generalize (grammarOf? ext).any (·.triple) = triple at hs hrow
  refine ⟨hvalue, inkLines_lineByLine s.text, gaps (slots triple t),
    gaps (compactRows (slots triple t)), ?_, ?_, ?_, ?_, ?_, ?_⟩
  · rw [length_gaps, holes_slots hs, List.length_range]
  · rw [map_ink_gaps, map_ink_gaps, inkSlots_compactRows]
  · rw [hs.text_eq, fill_slots_eq_weave hs rfl]
  · rw [hrow, fill_slots_eq_weave hs (holes_compactRows _)]
  · rw [← map_literal_range, ← fill_slots_eq_weave hs rfl, hs.fill_literal]
  · rw [hvalue, hrow, restore_compactRows hs, ← map_literal_range,
      ← fill_slots_eq_weave hs (holes_compactRows _)]

theorem generic_line_by_line_around_template :
    (generic "js".toText "  a  =  `x  \n\n  y`;\t\n \n\tb\n".toText).value =
      "a  =  `x  \n\n  y`;\n b".toText := by
  let s : Shielded := {
    text := "  a  =  \x00STR0END\x00;\t\n \n\tb\n".toText
    spans := #["`x  \n\n  y`".toText]
    sentinel := '\x00' }
  have hs : shield? ((grammarOf? "js".toText).any (·.triple))
      "  a  =  `x  \n\n  y`;\t\n \n\tb\n".toText = some s := by cbv
  rw [(generic_line_by_line hs).1]
  cbv

end CodeCompaction.Minify
