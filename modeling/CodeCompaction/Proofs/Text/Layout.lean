import CodeCompaction.Text.Lines

namespace CodeCompaction.Text

def startsLine (t : Text) : Bool := t.head? == some (ch '\n')

def startsDouble (t : Text) : Bool := startsLine t && startsLine t.tail

def tidyStep (c : CodePoint) (rest : Text) : Text :=
  if (isInlineBlank c && atLineEnd rest) || (c == '\n' && startsDouble rest) then rest else c :: rest

def tidied (t : Text) : Text := t.foldr tidyStep []

theorem tidied_cons (c : CodePoint) (t : Text) : tidied (c :: t) = tidyStep c (tidied t) := rfl

theorem isInlineBlank_newline : isInlineBlank '\n' = false := rfl

theorem tidyStep_newline_of_double {t : Text} (h : startsDouble t = true) : tidyStep '\n' t = t := by
  simp [tidyStep, h]

theorem tidyStep_newline_of_not_double {t : Text} (h : startsDouble t = false) :
    tidyStep '\n' t = ch '\n' :: t := by
  simp [tidyStep, h, isInlineBlank_newline]

theorem startsLine_tidyStep_newline (t : Text) : startsLine (tidyStep '\n' t) = true := by
  cases h : startsDouble t with
  | false =>
      rw [tidyStep_newline_of_not_double h]
      rfl
  | true =>
      rw [tidyStep_newline_of_double h]
      exact (Bool.and_eq_true_iff.mp h).1

theorem atLineEnd_of_startsLine {t : Text} (h : startsLine t = true) : atLineEnd t = true := by
  cases t with
  | nil => rfl
  | cons c cs => simpa [startsLine, atLineEnd] using h

theorem startsDouble_of_not_startsLine {t : Text} (h : startsLine t = false) :
    startsDouble t = false := by
  rw [startsDouble, h, Bool.false_and]

theorem startsDouble_newline (t : Text) : startsDouble (ch '\n' :: t) = startsLine t := rfl

theorem tidyStep_inlineBlank {c : CodePoint} {t : Text} (hc : isInlineBlank c = true)
    (ht : atLineEnd t = true) : tidyStep c t = t := by
  simp [tidyStep, hc, ht]

theorem tidyStep_eq_cases (c : CodePoint) (t : Text) : tidyStep c t = t ∨ tidyStep c t = c :: t := by
  rw [tidyStep]
  split
  · exact .inl rfl
  · exact .inr rfl

theorem tidied_sublist (t : Text) : (tidied t).Sublist t := by
  induction t with
  | nil => exact .slnil
  | cons c t ih =>
      rw [tidied_cons]
      rcases tidyStep_eq_cases c (tidied t) with h | h
      · rw [h]
        exact ih.cons c
      · rw [h]
        exact ih.cons_cons c

theorem tidied_tidied (t : Text) : tidied (tidied t) = tidied t := by
  induction t with
  | nil => rfl
  | cons c t ih =>
      rw [tidied_cons]
      rcases tidyStep_eq_cases c (tidied t) with h | h
      · rw [h, ih]
      · rw [h, tidied_cons, ih, h]

theorem tidied_of_afterBlankLine {t r : Text} (h : afterBlankLine t = some r) :
    tidied t = tidyStep '\n' (tidied r) := by
  induction t with
  | nil => simp [afterBlankLine] at h
  | cons c cs ih =>
      simp only [afterBlankLine] at h
      split at h
      · rename_i hc
        obtain rfl : c = '\n' := by simpa using hc
        injection h with h
        rw [tidied_cons, h]
      · split at h
        · rename_i hb
          have hr := startsLine_tidyStep_newline (tidied r)
          rw [tidied_cons, ih h, tidyStep_inlineBlank hb (atLineEnd_of_startsLine hr)]
        · simp at h

theorem startsLine_tidied_of_afterBlankLine {t : Text} (h : afterBlankLine t = none) :
    startsLine (tidied t) = false := by
  induction t with
  | nil => rfl
  | cons c cs ih =>
      simp only [afterBlankLine] at h
      split at h
      · simp at h
      · rename_i hc
        have hcons : startsLine (c :: tidied cs) = false := by simpa [startsLine] using hc
        split at h
        · rw [tidied_cons, tidyStep]
          split
          · exact ih h
          · exact hcons
        · rename_i hb
          rw [tidied_cons, tidyStep]
          simpa [hb, hc] using hcons

theorem tidied_skipBlankLines (t : Text) :
    tidied t = List.replicate (min (skipBlankLines t).1 2) (ch '\n') ++ tidied (skipBlankLines t).2 ∧
      startsLine (tidied (skipBlankLines t).2) = false := by
  fun_induction skipBlankLines t with
  | case1 t h => exact ⟨rfl, startsLine_tidied_of_afterBlankLine h⟩
  | case2 t r h skipped ih =>
      obtain ⟨hr, hend⟩ := ih
      change tidied r = List.replicate (min skipped.1 2) (ch '\n') ++ tidied skipped.2 at hr
      change startsLine (tidied skipped.2) = false at hend
      refine ⟨?_, hend⟩
      change tidied t = List.replicate (min (skipped.1 + 1) 2) (ch '\n') ++ tidied skipped.2
      rw [tidied_of_afterBlankLine h, hr]
      rcases skipped.1 with _ | _ | n
      · exact tidyStep_newline_of_not_double (startsDouble_of_not_startsLine hend)
      · exact tidyStep_newline_of_not_double hend
      · rw [Nat.min_eq_right (by omega), Nat.min_eq_right (by omega)]
        exact tidyStep_newline_of_double rfl

theorem startsDouble_tidied_iff (t : Text) :
    startsDouble (tidied t) = true ↔ 2 ≤ (skipBlankLines t).1 := by
  obtain ⟨ht, hend⟩ := tidied_skipBlankLines t
  rw [ht]
  rcases (skipBlankLines t).1 with _ | _ | n
  · simp [startsDouble_of_not_startsLine hend]
  · change startsDouble (ch '\n' :: tidied (skipBlankLines t).2) = true ↔ 2 ≤ 1
    rw [startsDouble_newline, hend]
    simp
  · rw [Nat.min_eq_right (by omega)]
    simp [startsDouble, startsLine]

theorem dropTrailing_newline (t : Text) : dropTrailing (ch '\n' :: t) = ch '\n' :: dropTrailing t := by
  rw [dropTrailing_cons]
  simp [isInlineBlank_newline]

theorem tidy_eq_tidied (t : Text) : tidy t = tidied t := by
  rw [tidy]
  fun_induction collapseBlankLines t with
  | case1 => rfl
  | case2 c cs hc skipped hs ih =>
      obtain rfl : c = '\n' := by simpa using hc
      have hsk : tidied cs = ch '\n' :: ch '\n' :: tidied skipped.2 := by
        rw [(tidied_skipBlankLines cs).1, Nat.min_eq_right hs]
        rfl
      rw [dropTrailing_newline, dropTrailing_newline, ih, tidied_cons, hsk]
      exact (tidyStep_newline_of_double rfl).symm
  | case3 c cs hc skipped hs ih =>
      obtain rfl : c = '\n' := by simpa using hc
      have hd : startsDouble (tidied cs) = false :=
        Bool.eq_false_iff.mpr (fun h => hs ((startsDouble_tidied_iff cs).mp h))
      rw [dropTrailing_newline, ih, tidied_cons, tidyStep_newline_of_not_double hd]
  | case4 c cs hc ih =>
      rw [dropTrailing_cons, ih, tidied_cons, tidyStep]
      simp [hc]

section Seam

variable {z : Text}

theorem foldr_tidyStep_follows (hz : startsLine z = true) (t : Text) :
    (atLineEnd (tidied t) = true → startsLine (t.foldr tidyStep z) = true) ∧
      (startsDouble (tidied t) = true → startsDouble (t.foldr tidyStep z) = true) := by
  induction t with
  | nil => exact ⟨fun _ => hz, fun h => absurd h (by decide)⟩
  | cons c t ih =>
      obtain ⟨hend, hdouble⟩ := ih
      rw [tidied_cons, List.foldr_cons]
      by_cases hc : c = '\n'
      · subst hc
        refine ⟨fun _ => startsLine_tidyStep_newline _, fun h => ?_⟩
        cases hd : startsDouble (t.foldr tidyStep z) with
        | true => rw [tidyStep_newline_of_double hd, hd]
        | false =>
            have hd' : startsDouble (tidied t) = false :=
              Bool.eq_false_iff.mpr (fun h => absurd (hdouble h) (by simp [hd]))
            rw [tidyStep_newline_of_not_double hd', startsDouble_newline] at h
            rw [tidyStep_newline_of_not_double hd, startsDouble_newline]
            exact hend (atLineEnd_of_startsLine h)
      · have hkept : atLineEnd (c :: tidied t) = false ∧ startsDouble (c :: tidied t) = false := by
          simp [atLineEnd, startsDouble, startsLine, hc]
        by_cases hdrop : isInlineBlank c = true ∧ atLineEnd (tidied t) = true
        · obtain ⟨hb, he⟩ := hdrop
          rw [tidyStep_inlineBlank hb he, tidyStep_inlineBlank hb (atLineEnd_of_startsLine (hend he))]
          exact ⟨hend, hdouble⟩
        · have hstep : tidyStep c (tidied t) = c :: tidied t := by
            rw [tidyStep, if_neg]
            simpa [hc] using hdrop
          rw [hstep, hkept.1, hkept.2]
          simp

theorem foldr_tidyStep_tidied (hz : startsLine z = true) (t : Text) :
    (tidied t).foldr tidyStep z = t.foldr tidyStep z := by
  induction t with
  | nil => rfl
  | cons c t ih =>
      obtain ⟨hend, hdouble⟩ := foldr_tidyStep_follows hz t
      rw [tidied_cons, List.foldr_cons, tidyStep]
      split
      · rename_i hdrop
        rw [ih]
        simp only [Bool.or_eq_true, Bool.and_eq_true, beq_iff_eq] at hdrop
        rcases hdrop with ⟨hb, he⟩ | ⟨rfl, hd⟩
        · rw [tidyStep_inlineBlank hb (atLineEnd_of_startsLine (hend he))]
        · rw [tidyStep_newline_of_double (hdouble hd)]
      · rw [List.foldr_cons, ih]

theorem tidied_append_newline (a t : Text) :
    tidied (tidied a ++ ch '\n' :: tidied t) = tidied (a ++ ch '\n' :: t) := by
  have hrest : tidied (ch '\n' :: tidied t) = tidied (ch '\n' :: t) := by
    rw [tidied_cons, tidied_tidied, tidied_cons]
  have hz : startsLine (tidied (ch '\n' :: t)) = true := startsLine_tidyStep_newline _
  calc tidied (tidied a ++ ch '\n' :: tidied t)
      = (tidied a).foldr tidyStep (tidied (ch '\n' :: tidied t)) := List.foldr_append
    _ = a.foldr tidyStep (tidied (ch '\n' :: t)) := by rw [hrest, foldr_tidyStep_tidied hz]
    _ = tidied (a ++ ch '\n' :: t) := List.foldr_append.symm

end Seam
end CodeCompaction.Text
