import CodeCompaction.Mode
import CodeCompaction.Proofs.Comment.Idempotence
import CodeCompaction.Proofs.Minify.Generic
import CodeCompaction.Proofs.Text.Size

namespace CodeCompaction.Comment

open CodeCompaction.Text CodeCompaction.Literal

theorem Passed.byteLength_le {ps : List Piece} {u : Text} (h : Passed ps u) :
    byteLength u ≤ byteLength (ps.flatMap Piece.text) := by
  induction h with
  | nil => exact Nat.le_refl _
  | keep p _ ih =>
      rw [List.flatMap_cons, byteLength_append, byteLength_append]
      exact Nat.add_le_add_left ih _
  | @pass x ps u doc _ ih =>
      have hdoc : 6 ≤ byteLength x := (length_of_isDoc doc).trans (length_le_byteLength x)
      have hpass : byteLength "pass".toText = 4 := rfl
      have htext : (Piece.literal x).text = x := rfl
      rw [List.flatMap_cons, byteLength_append, byteLength_append, htext]
      omega

theorem byteLength_remove_le (ext t : Text) : byteLength (remove ext t) ≤ byteLength t := by
  rcases removal_cases ext t with h | h | ⟨g, hg, -, ⟨-, h⟩ | ⟨hp, s, hs, h⟩⟩ <;>
    rw [remove, h, Removal.text]
  · exact byteLength_le_of_sublist (stripPlain_sublist g t)
  · obtain ⟨u, hu, hsub⟩ := exists_passed_of_shield? hg hp hs
    have hpassed := hu.byteLength_le
    rw [flatMap_text_split] at hpassed
    exact (byteLength_le_of_sublist hsub).trans hpassed

end CodeCompaction.Comment

namespace CodeCompaction.Minify

open CodeCompaction.Text CodeCompaction.Literal CodeCompaction.Comment

theorem keepIndentation_sublist (t : Text) : (keepIndentation t).Sublist t :=
  (strip_sublist _).trans ((collapseBlankLines_sublist _).trans (dropTrailing_sublist t))

theorem byteLength_joinWords_le (t : Text) : byteLength (joinWords t) ≤ byteLength t :=
  byteLength_intercalate_pieces_le rfl isBlank
    ((List.filter_sublist.map _).sum_le_sum (fun _ _ => Nat.zero_le _))

theorem betweenTags_thrifty : betweenTags.Thrifty := by
  intro b t n out h
  simp only [betweenTags] at h
  split at h
  · rename_i cs
    split at h
    · rename_i hgap
      obtain ⟨hn, rfl⟩ := Prod.mk.inj (Option.some.inj h)
      have hlt : (cs.takeWhile isBlank).length < cs.length := by
        simp only [Bool.and_eq_true, beq_iff_eq, List.head?_drop] at hgap
        exact (List.getElem?_eq_some_iff.mp hgap.2).1
      refine Nat.le_trans ?_ (length_le_byteLength _)
      rw [← hn, List.length_take, List.length_cons]
      change 2 ≤ _
      omega
    · simp at h
  · simp at h

theorem byteLength_compactMarkup_le (t : Text) : byteLength (compactMarkup t) ≤ byteLength t :=
  (byteLength_joinWords_le _).trans (byteLength_rewrite_le betweenTags_thrifty t)

section Rows

variable (e : Nat → Text)

theorem byteLength_fill_le_of_sublist {σ τ : Row} (h : σ.Sublist τ) :
    byteLength (fill e σ) ≤ byteLength (fill e τ) :=
  byteLength_le_of_sublist (h.flatMap _)

theorem byteLength_fill_compactRow_le (ρ : Row) :
    byteLength (fill e (compactRow ρ)) ≤ byteLength (fill e ρ) := by
  have htrimmed := byteLength_fill_le_of_sublist e
    (List.rdropWhile_prefix (charTest isInlineBlank) ρ).sublist
  rw [compactRow]
  generalize ρ.rdropWhile (charTest isInlineBlank) = trimmed at htrimmed
  refine Nat.le_trans ?_ htrimmed
  cases trimmed with
  | nil => exact Nat.le_refl _
  | cons x τ =>
      cases hx : charTest isInlineBlank x with
      | false => simp [hx, List.dropWhile_cons_of_neg]
      | true =>
          cases x with
          | hole i => simp at hx
          | char c =>
              have hc := c.utf8Size_pos
              have hspace : (ch ' ').utf8Size = 1 := rfl
              have hrest := byteLength_fill_le_of_sublist e
                (List.dropWhile_sublist (charTest isInlineBlank) (l := τ))
              simp only [List.head?_cons, Option.any_some, hx, if_true, List.dropWhile_cons_of_pos,
                List.singleton_append, fill_char, byteLength_cons, hspace]
              omega

theorem byteLength_fill_joinRows_le {rs rs' : List Row}
    (h : ((rs.map (fill e)).map (byteLength · + 1)).sum ≤
      ((rs'.map (fill e)).map (byteLength · + 1)).sum) :
    byteLength (fill e (joinRows rs)) ≤ byteLength (fill e (joinRows rs')) := by
  rw [fill_joinRows, fill_joinRows, unlines, unlines, byteLength_intercalate, byteLength_intercalate]
  exact Nat.sub_le_sub_right h 1

theorem byteLength_fill_compactRows_le (σ : Row) :
    byteLength (fill e (compactRows σ)) ≤ byteLength (fill e σ) := by
  have hstrip : (compactRows σ).Sublist _ :=
    (List.rdropWhile_prefix _ _).sublist.trans (List.dropWhile_sublist _)
  refine (byteLength_fill_le_of_sublist e hstrip).trans ?_
  conv_rhs => rw [← joinRows_rows σ]
  refine byteLength_fill_joinRows_le e ?_
  rw [List.map_map, List.map_map, List.map_map]
  refine (List.sum_le_sum (fun ρ _ => Nat.add_le_add_right (byteLength_fill_compactRow_le e ρ) 1)).trans ?_
  exact (List.filter_sublist.map _).sum_le_sum (fun _ _ => Nat.zero_le _)

end Rows

theorem byteLength_generic_le (ext t : Text) : byteLength (generic ext t).value ≤ byteLength t := by
  cases h : shield? ((grammarOf? ext).any (·.triple)) t with
  | none =>
      simp only [generic, tryShield, h, Logged.value_bind, Logged.value_pure]
      exact Nat.le_refl _
  | some s =>
      have hs := shields_of_shield? h
      have hides : Hides (placeholder s.mark) := s.hides_seat hs.sentinel_mem id
      rw [value_generic h, compactLines_eq_strip_lineByLine, hs.text_eq, ← fill_compactRows hides,
        restore_compactRows hs]
      conv_rhs => rw [← hs.fill_literal]
      exact byteLength_fill_compactRows_le s.literal _

variable {limit : Json.NestingLimit}

/-- What is left of the text once its comments are gone has no value that could be written. -/
def FallsBack (limit : Json.NestingLimit) (ext t : Text) : Prop :=
  ∃ fault, rewritten limit (withoutJsonComments ext (remove ext t)).value = .error fault

theorem byteLength_compacted_le {ext t : Text} {family : Family}
    (h : family = .json → ∃ fault, rewritten limit (withoutJsonComments ext t).value = .error fault) :
    byteLength (compacted limit ext t family).value ≤ byteLength t := by
  cases family with
  | whitespaceSignificant => exact byteLength_le_of_sublist (keepIndentation_sublist t)
  | markup => exact byteLength_compactMarkup_le t
  | generic => exact byteLength_generic_le ext t
  | json =>
      obtain ⟨fault, hfault⟩ := h rfl
      simp only [compacted, json, Logged.value_bind, hfault, Logged.value_pure]
      exact byteLength_joinWords_le t

theorem byteLength_minify_le {ext t : Text}
    (h : familyOf ext = .json → withinSize t = true → FallsBack limit ext t) :
    byteLength (minify limit ext t) ≤ byteLength t := by
  rw [minify_eq]
  split
  · rename_i hsize
    exact (byteLength_compacted_le (fun hfamily => h hfamily hsize)).trans (byteLength_remove_le ext t)
  · exact Nat.le_refl _

theorem byteLength_apply_le {m : Mode} {ext t : Text}
    (h : m = .minify → familyOf ext = .json → withinSize t = true → FallsBack limit ext t) :
    byteLength (m.apply limit ext t) ≤ byteLength t := by
  cases m with
  | raw => exact Nat.le_refl _
  | removeComments => exact byteLength_remove_le ext t
  | minify => exact byteLength_minify_le (h rfl)

end CodeCompaction.Minify
