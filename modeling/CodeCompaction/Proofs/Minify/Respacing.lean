import CodeCompaction.Proofs.Literal.Relexing
import CodeCompaction.Proofs.Minify.Generic
import CodeCompaction.Proofs.Minify.Stability

namespace CodeCompaction.Minify

open CodeCompaction.Text CodeCompaction.Literal CodeCompaction.Comment

def headedRows (rs : List Row) : Row := rs.flatMap (.char '\n' :: ·)

section Rows

variable {triple : Bool} {lit : Nat → Text} {σ τ τ' : Row}

theorem headedRows_cons (ρ : Row) (rs : List Row) :
    headedRows (ρ :: rs) = .char '\n' :: (ρ ++ headedRows rs) := rfl

theorem headedRows_eq_joinRows {rs : List Row} (h : rs ≠ []) :
    headedRows rs = .char '\n' :: joinRows rs := by
  induction rs with
  | nil => exact absurd rfl h
  | cons ρ rs ih =>
      cases rs with
      | nil => simp [headedRows]
      | cons ρ' rs =>
          rw [headedRows_cons, ih (List.cons_ne_nil _ _), joinRows_cons_of_ne_nil ρ (List.cons_ne_nil _ _)]

theorem slotAtLineEnd_headedRows (rs : List Row) : slotAtLineEnd (headedRows rs) = true := by
  cases rs <;> rfl

theorem exists_rdropWhile_append (q : CodePoint → Bool) (ρ : Row) :
    ∃ w : Text, ρ = ρ.rdropWhile (charTest q) ++ ofText w := by
  have hall : (ρ.rtakeWhile (charTest q)).all (charTest q) = true :=
    List.all_eq_true.mpr (fun _ hx => List.mem_rtakeWhile_imp hx)
  obtain ⟨w, hw, -⟩ := exists_ofText_of_all hall
  exact ⟨w, by rw [← hw, List.rdropWhile_append_rtakeWhile]⟩

theorem respaced_compactRow (h : Respaced τ' τ) (hend : slotAtLineEnd τ' = true) (ρ : Row) :
    Respaced (compactRow ρ ++ τ') (ρ ++ τ) := by
  obtain ⟨tail, htail⟩ := exists_rdropWhile_append isInlineBlank ρ
  rw [compactRow]
  generalize ρ.rdropWhile (charTest isInlineBlank) = trimmed at htail ⊢
  obtain ⟨w, hw, hblank⟩ := exists_text_takeWhile isInlineBlank trimmed
  have hbody : Respaced (trimmed.dropWhile (charTest isInlineBlank) ++ τ')
      (trimmed.dropWhile (charTest isInlineBlank) ++ (ofText tail ++ τ)) :=
    .append_left _ (.drop_atLineEnd tail h hend)
  have hρ : ρ ++ τ = ofText w ++ (trimmed.dropWhile (charTest isInlineBlank) ++ (ofText tail ++ τ)) := by
    rw [← hw, ← List.append_assoc, List.takeWhile_append_dropWhile, ← List.append_assoc, htail]
  rw [hρ, List.append_assoc]
  cases trimmed with
  | nil =>
      obtain rfl : w = [] := by simpa [ofText] using hw
      exact hbody
  | cons x trimmed =>
      cases hx : charTest isInlineBlank x with
      | true =>
          have hne : w ≠ [] := by
            rintro rfl
            simp [hx, ofText] at hw
          rw [List.head?_cons, Option.any_some, hx, if_pos rfl]
          exact .space hblank hne hbody
      | false =>
          obtain rfl : w = [] := by simpa [hx, ofText] using hw
          rw [List.head?_cons, Option.any_some, hx, if_neg Bool.false_ne_true]
          exact hbody

theorem respaced_keptRows (rs : List Row) :
    Respaced (headedRows ((rs.filter (fun ρ => !ρ.all (charTest isInlineBlank))).map compactRow))
      (headedRows rs) := by
  induction rs with
  | nil => exact .nil
  | cons ρ rs ih =>
      have hend := slotAtLineEnd_headedRows
        ((rs.filter (fun ρ => !ρ.all (charTest isInlineBlank))).map compactRow)
      rw [headedRows_cons]
      cases hall : ρ.all (charTest isInlineBlank) with
      | true =>
          obtain ⟨w, rfl, -⟩ := exists_ofText_of_all hall
          rw [List.filter_cons_of_neg (by simp [hall])]
          exact .drop (head?_ne_hole_of_slotAtLineEnd hend) (fun _ => hend) (.drop_atLineEnd w ih hend)
      | false =>
          rw [List.filter_cons_of_pos (by simp [hall]), List.map_cons, headedRows_cons]
          exact .keep _ (respaced_compactRow ih hend ρ)

theorem lexes_compactRows (h : Lexes triple lit σ) : Lexes triple lit (compactRows σ) := by
  have hheaded : Lexes triple lit (headedRows (rows σ)) := by
    rw [headedRows_eq_joinRows (rows_ne_nil σ), joinRows_rows]
    exact ⟨by decide, h⟩
  have hkept := (respaced_keptRows (rows σ)).lexes hheaded
  rw [compactRows]
  generalize ((rows σ).filter (fun ρ => !ρ.all (charTest isInlineBlank))).map compactRow = kept
    at hkept ⊢
  have hjoined : Lexes triple lit (joinRows kept) := by
    cases kept with
    | nil => exact hkept
    | cons ρ rs =>
        rw [headedRows_eq_joinRows (List.cons_ne_nil _ _)] at hkept
        exact hkept.2
  have hfront : Lexes triple lit ((joinRows kept).dropWhile (charTest isBlank)) := by
    rw [← List.takeWhile_append_dropWhile (p := charTest isBlank) (l := joinRows kept)] at hjoined
    exact hjoined.suffix
  generalize (joinRows kept).dropWhile (charTest isBlank) = front at hfront ⊢
  obtain ⟨w, hw⟩ := exists_rdropWhile_append isBlank front
  have hback := Respaced.append_left (front.rdropWhile (charTest isBlank)) (.drop_atLineEnd w .nil rfl)
  rw [List.append_nil, List.append_nil, ← hw] at hback
  exact hback.lexes hfront

end Rows

section Relex

variable {ext t : Text} {triple : Bool} {s s' : Shielded}

theorem not_isBlank_of_isQuote {c : CodePoint} (h : isQuote c = true) : isBlank c = false := by
  simp only [isQuote, Bool.or_eq_true, beq_iff_eq] at h
  rcases h with (rfl | rfl) | rfl <;> decide

theorem mem_of_mem_fill_compactRows (hs : Shields triple t s) {c : CodePoint} (hc : isBlank c = false)
    (h : c ∈ fill s.literal (compactRows (slots triple t))) : c ∈ t := by
  rw [← hs.fill_literal, mem_fill]
  rcases (mem_fill _).mp h with h | ⟨i, hi, hmem⟩
  · exact .inl (char_mem_of_mem_compactRows hc h)
  · rw [← mem_holes, holes_compactRows, mem_holes] at hi
    exact .inr ⟨i, hi, hmem⟩

theorem exists_shield?_compactRows (h : shield? triple t = some s) : ∃ s',
    shield? triple (fill s.literal (compactRows (slots triple t))) = some s' ∧ s'.spans = s.spans ∧
      slots triple (fill s.literal (compactRows (slots triple t))) = compactRows (slots triple t) := by
  have hs := shields_of_shield? h
  have hholes : holes (compactRows (slots triple t)) = List.range s.spans.size := by
    rw [holes_compactRows, holes_slots hs]
  have hsplit := split_fill (lexes_compactRows hs.lexes)
  obtain ⟨s', hs'⟩ : ∃ s', shield? triple (fill s.literal (compactRows (slots triple t))) = some s' := by
    refine exists_shield?_of_imp h ?_ ?_
    · rintro ⟨c, hc, hq⟩
      exact ⟨c, mem_of_mem_fill_compactRows hs (not_isBlank_of_isQuote hq) hc, hq⟩
    · intro c hc hmem
      exact mem_of_mem_fill_compactRows hs (sentinels_not_blank c hc) hmem
  refine ⟨s', hs', ?_, ?_⟩
  · rw [(shields_of_shield? hs').spans_eq, hsplit, literals_map_piece, hholes, map_literal_range]
  · rw [slots, hsplit, number_map_piece (hholes.trans List.range_eq_range')]

theorem compactLines_shielded {u : Text} (hs' : Shields triple u s')
    (hslots : slots triple u = compactRows (slots triple t)) : compactLines s'.text = s'.text := by
  have hides : Hides (placeholder s'.mark) := s'.hides_seat hs'.sentinel_mem id
  have htext : s'.text = compactLines (fill (placeholder s'.mark) (slots triple t)) := by
    rw [hs'.text_eq, hslots, fill_compactRows hides, compactLines_eq_strip_lineByLine]
  rw [htext, compactLines_compactLines]

theorem generic_settles (ext t : Text) :
    (∀ s, shield? ((grammarOf? ext).any (·.triple)) t = some s →
      (∃ s', shield? ((grammarOf? ext).any (·.triple)) (generic ext t).value = some s' ∧
        s'.spans = s.spans) ∧
      (generic ext (generic ext t).value).value = (generic ext t).value) ∧
    (shield? ((grammarOf? ext).any (·.triple)) t = none → (generic ext t).value = t) := by
  refine ⟨fun s h => ?_, fun h => ?_⟩
  · have hs := shields_of_shield? h
    have hvalue : (generic ext t).value =
        fill s.literal (compactRows (slots ((grammarOf? ext).any (·.triple)) t)) := by
      have hides : Hides (placeholder s.mark) := s.hides_seat hs.sentinel_mem id
      rw [value_generic h, compactLines_eq_strip_lineByLine, hs.text_eq, ← fill_compactRows hides,
        restore_compactRows hs]
    obtain ⟨s', h', hspans, hslots⟩ := exists_shield?_compactRows h
    rw [← hvalue] at h' hslots
    have hs' := shields_of_shield? h'
    refine ⟨⟨s', h', hspans⟩, ?_⟩
    rw [value_generic h', compactLines_shielded hs' hslots, hs'.restore_text]
  · simp only [generic, tryShield, h, Logged.value_bind, Logged.value_pure]

theorem generic_settles_around_open_literal :
    (∃ s', shield? ((grammarOf? "kt".toText).any (·.triple))
        (generic "kt".toText "a = \"\" \n\n\t \"b\" + \"\"\"c \n\"\"\" \n'open  \n ".toText).value = some s' ∧
      s'.spans = #["\"\"".toText, "\"b\"".toText, "\"\"\"c \n\"\"\"".toText, "'open  ".toText]) ∧
    (generic "kt".toText (sentinels ++ "  \"\n\n ".toText)).value = sentinels ++ "  \"\n\n ".toText := by
  let s : Shielded := {
    text := "a = \x00STR0END\x00 \n\n\t \x00STR1END\x00 + \x00STR2END\x00 \n\x00STR3END\x00\n ".toText
    spans := #["\"\"".toText, "\"b\"".toText, "\"\"\"c \n\"\"\"".toText, "'open  ".toText]
    sentinel := '\x00' }
  have hs : shield? ((grammarOf? "kt".toText).any (·.triple))
      "a = \"\" \n\n\t \"b\" + \"\"\"c \n\"\"\" \n'open  \n ".toText = some s := by cbv
  have hnone : shield? ((grammarOf? "kt".toText).any (·.triple)) (sentinels ++ "  \"\n\n ".toText) = none :=
    shield?_eq_none_iff.mpr ⟨⟨'"', by simp, by decide⟩, fun c hc => List.mem_append_left _ hc⟩
  exact ⟨((generic_settles _ _).1 s hs).1, (generic_settles _ _).2 hnone⟩

end Relex

end CodeCompaction.Minify
