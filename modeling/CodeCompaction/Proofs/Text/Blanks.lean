import Mathlib.Data.List.DropRight
import CodeCompaction.Proofs.Text.Layout
import CodeCompaction.Proofs.Text.Splitting

namespace CodeCompaction.Text

theorem not_isInlineBlank_of_not_isBlank {c : CodePoint} (h : isBlank c = false) : isInlineBlank c = false := by
  rw [Bool.eq_false_iff]
  intro hinline
  rw [isBlank_of_isInlineBlank hinline] at h
  exact Bool.false_ne_true h.symm

theorem rdropWhile_append_of_all {p : CodePoint → Bool} {w : Text} (hw : ∀ c ∈ w, p c = true) (t : Text) :
    (t ++ w).rdropWhile p = t.rdropWhile p := by
  have hw' : ∀ c ∈ w.reverse, p c = true := fun c hc => hw c (List.mem_reverse.mp hc)
  rw [List.rdropWhile, List.reverse_append, List.dropWhile_append_of_pos hw', List.rdropWhile]

theorem all_rdropWhile {p q : CodePoint → Bool} (h : ∀ c, q c = true → p c = true) (t : Text) :
    (t.rdropWhile q).all p = t.all p := by
  have htail : (t.rtakeWhile q).all p = true :=
    List.all_eq_true.mpr (fun c hc => h c (List.mem_rtakeWhile_imp hc))
  conv_rhs => rw [← List.rdropWhile_append_rtakeWhile (p := q) (l := t), List.all_append, htail,
    Bool.and_true]

theorem isAllBlank_rstrip (t : Text) : isAllBlank (rstrip t) = isAllBlank t :=
  all_rdropWhile (fun _ => id) t

theorem rstrip_append_blank {w : Text} (hw : ∀ c ∈ w, isBlank c = true) (t : Text) :
    rstrip (t ++ w) = rstrip t :=
  rdropWhile_append_of_all hw t

theorem isAllBlank_append (a b : Text) : isAllBlank (a ++ b) = (isAllBlank a && isAllBlank b) :=
  List.all_append

theorem strip_blank_append {w : Text} (hw : ∀ c ∈ w, isBlank c = true) (t : Text) :
    strip (w ++ t) = strip t := by
  rw [strip, lstrip, List.dropWhile_append_of_pos hw]
  rfl

theorem strip_blank_cons {c : CodePoint} (hc : isBlank c = true) (t : Text) : strip (c :: t) = strip t := by
  rw [strip, lstrip, List.dropWhile_cons_of_pos hc]
  rfl

theorem strip_append_blank {w : Text} (hw : ∀ c ∈ w, isBlank c = true) (t : Text) :
    strip (t ++ w) = strip t := by
  rw [strip, strip, lstrip, List.dropWhile_append]
  split
  · rename_i hempty
    have ht : lstrip t = [] := List.isEmpty_iff.mp hempty
    rw [List.dropWhile_eq_nil_iff.mpr hw, ht]
  · exact rstrip_append_blank hw _

theorem strip_of_blank {w : Text} (hw : ∀ c ∈ w, isBlank c = true) : strip w = [] := by
  rw [← List.append_nil w, strip_blank_append hw]
  rfl

theorem exists_strip (t : Text) : ∃ w w' : Text, (∀ c ∈ w, isBlank c = true) ∧
    (∀ c ∈ w', isBlank c = true) ∧ t = w ++ (strip t ++ w') := by
  refine ⟨t.takeWhile isBlank, (lstrip t).rtakeWhile isBlank, fun c => List.mem_takeWhile_imp,
    fun c => List.mem_rtakeWhile_imp, ?_⟩
  have hright : strip t ++ (lstrip t).rtakeWhile isBlank = lstrip t :=
    List.rdropWhile_append_rtakeWhile ..
  rw [hright, lstrip, List.takeWhile_append_dropWhile]

theorem strip_of_no_blank {t : Text} (h : ∀ c ∈ t, isBlank c = false) : strip t = t := by
  obtain ⟨w, w', hw, hw', ht⟩ := exists_strip t
  have hnone : ∀ v : Text, (∀ c ∈ v, isBlank c = true) → (∀ c ∈ v, c ∈ t) → v = [] := by
    refine fun v hv hmem => List.eq_nil_iff_forall_not_mem.mpr fun c hc => ?_
    exact absurd ((hv c hc).symm.trans (h c (hmem c hc))) (by simp)
  rw [hnone w hw (fun c hc => by rw [ht]; simp [hc]), hnone w' hw' (fun c hc => by rw [ht]; simp [hc]),
    List.append_nil, List.nil_append] at ht
  exact ht.symm

theorem strip_strip (t : Text) : strip (strip t) = strip t := by
  obtain ⟨w, w', hw, hw', ht⟩ := exists_strip t
  conv_rhs => rw [ht, strip_blank_append hw, strip_append_blank hw']

theorem rdropWhile_cons (p : CodePoint → Bool) (c : CodePoint) (t : Text) : (c :: t).rdropWhile p =
    if (t.rdropWhile p).isEmpty then if p c then [] else [c] else c :: t.rdropWhile p := by
  rw [List.rdropWhile, List.reverse_cons, List.dropWhile_append, List.rdropWhile,
    List.isEmpty_reverse]
  split
  · rw [List.dropWhile_cons, List.dropWhile_nil]
    cases p c <;> rfl
  · rw [List.reverse_append]
    rfl

theorem dropTrailing_line_append {l u : Text} (hl : ch '\n' ∉ l) (hu : atLineEnd (dropTrailing u) = true) :
    dropTrailing (l ++ u) = l.rdropWhile isInlineBlank ++ dropTrailing u := by
  induction l with
  | nil => rfl
  | cons c l ih =>
      rw [List.cons_append, dropTrailing_cons, ih (List.not_mem_of_not_mem_cons hl), rdropWhile_cons]
      cases hrest : l.rdropWhile isInlineBlank with
      | nil => cases hc : isInlineBlank c <;> simp [hu]
      | cons d r =>
          have hd : d ∈ l := (List.rdropWhile_prefix isInlineBlank l).subset
            (hrest ▸ List.mem_cons_self .. : d ∈ l.rdropWhile isInlineBlank)
          have hne : d ≠ '\n' := fun heq => hl (List.mem_cons_of_mem _ (heq ▸ hd))
          simp [atLineEnd, hne]

theorem dropTrailing_eq_unlines (t : Text) :
    dropTrailing t = unlines ((lines t).map (List.rdropWhile isInlineBlank)) := by
  induction t using line_induction with
  | last l hl =>
      have h := dropTrailing_line_append (u := []) hl rfl
      rw [dropTrailing_nil, List.append_nil, List.append_nil] at h
      rw [h, lines_of_no_newline hl]
      exact (unlines_singleton _).symm
  | step l t hl ih =>
      have hend : atLineEnd (dropTrailing (ch '\n' :: t)) = true := by
        rw [dropTrailing_newline]
        rfl
      rw [dropTrailing_line_append hl hend, dropTrailing_newline, ih,
        lines_append_newline_of_no_newline hl, List.map_cons,
        unlines_cons_of_ne_nil _ (by simpa using lines_ne_nil t)]

def inkLines (t : Text) : List Text := ((lines t).map strip).filter (fun l => !l.isEmpty)

section InkLines

variable {t l : Text} {c : CodePoint}

theorem inkLines_append_newline (t u : Text) :
    inkLines (t ++ ch '\n' :: u) = inkLines t ++ inkLines u := by
  rw [inkLines, lines_append_newline, List.map_append, List.filter_append]
  rfl

theorem inkLines_of_no_newline (h : ch '\n' ∉ l) :
    inkLines l = [strip l].filter (fun l => !l.isEmpty) := by
  rw [inkLines, lines_of_no_newline h]
  rfl

theorem inkLines_cons_newline (t : Text) : inkLines (ch '\n' :: t) = inkLines t :=
  inkLines_append_newline [] t

theorem inkLines_blank_cons (hc : isBlank c = true) (t : Text) : inkLines (c :: t) = inkLines t := by
  by_cases hnl : c = '\n'
  · rw [hnl, inkLines_cons_newline]
  · have hline {l : Text} (hl : ch '\n' ∉ l) : inkLines (c :: l) = inkLines l := by
      have hcl : ch '\n' ∉ c :: l := List.not_mem_cons_of_ne_of_not_mem (Ne.symm hnl) hl
      rw [inkLines_of_no_newline hcl, inkLines_of_no_newline hl, strip_blank_cons hc]
    cases t using line_induction with
    | last l hl => exact hline hl
    | step l t hl _ =>
        rw [← List.cons_append, inkLines_append_newline, inkLines_append_newline, hline hl]

theorem inkLines_concat_blank (hc : isBlank c = true) (t : Text) :
    inkLines (t ++ [c]) = inkLines t := by
  by_cases hnl : c = '\n'
  · rw [hnl, inkLines_append_newline, inkLines_of_no_newline List.not_mem_nil]
    exact List.append_nil _
  · induction t using line_induction with
    | last l hl =>
        have hlc : ch '\n' ∉ l ++ [c] := by simp [hl, Ne.symm hnl]
        rw [inkLines_of_no_newline hlc, inkLines_of_no_newline hl,
          strip_append_blank (by simpa using hc)]
    | step l t _ ih =>
        rw [List.append_assoc, List.cons_append, inkLines_append_newline, inkLines_append_newline, ih]

theorem inkLines_blank_append {w : Text} (hw : ∀ c ∈ w, isBlank c = true) (t : Text) :
    inkLines (w ++ t) = inkLines t := by
  induction w with
  | nil => rfl
  | cons c w ih =>
      rw [List.cons_append, inkLines_blank_cons (hw c (List.mem_cons_self ..)),
        ih (fun d hd => hw d (List.mem_cons_of_mem _ hd))]

theorem inkLines_append_blank {w : Text} (hw : ∀ c ∈ w, isBlank c = true) (t : Text) :
    inkLines (t ++ w) = inkLines t := by
  induction w generalizing t with
  | nil => rw [List.append_nil]
  | cons c w ih =>
      rw [← List.singleton_append, ← List.append_assoc,
        ih (fun d hd => hw d (List.mem_cons_of_mem _ hd)),
        inkLines_concat_blank (hw c (List.mem_cons_self ..))]

theorem inkLines_unlines {ls : List Text} (h : ∀ l ∈ ls, ch '\n' ∉ l) :
    inkLines (unlines ls) = (ls.map strip).filter (fun l => !l.isEmpty) := by
  by_cases hne : ls = []
  · rw [hne]
    rfl
  · rw [inkLines, lines_unlines hne h]

theorem inkLines_strip (t : Text) : inkLines (strip t) = inkLines t := by
  obtain ⟨w, w', hw, hw', ht⟩ := exists_strip t
  conv_rhs => rw [ht, inkLines_blank_append hw, inkLines_append_blank hw']

end InkLines

end CodeCompaction.Text
