import CodeCompaction.Proofs.Minify.LineByLine

namespace CodeCompaction.Minify

open CodeCompaction.Text

def keptLines (t : Text) : List Text :=
  ((lines t).filter (fun l => !l.all isInlineBlank)).map compactLine

section Line

variable {l : Text}

theorem keptLines_append_newline (t u : Text) :
    keptLines (t ++ ch '\n' :: u) = keptLines t ++ keptLines u := by
  rw [keptLines, lines_append_newline, List.filter_append, List.map_append]
  rfl

theorem keptLines_of_blank (hl : ch '\n' ∉ l) (hblank : l.all isInlineBlank = true) : keptLines l = [] := by
  rw [keptLines, lines_of_no_newline hl, List.filter_cons_of_neg (by simp [hblank])]
  rfl

theorem keptLines_of_not_blank (hl : ch '\n' ∉ l) (hink : l.all isInlineBlank = false) :
    keptLines l = [compactLine l] := by
  rw [keptLines, lines_of_no_newline hl, List.filter_cons_of_pos (by simp [hink])]
  rfl

theorem rdropWhile_eq_nil_of_all (hblank : l.all isInlineBlank = true) : l.rdropWhile isInlineBlank = [] :=
  List.rdropWhile_eq_nil_iff.mpr (List.all_eq_true.mp hblank)

theorem isBlank_of_all_inline (hblank : l.all isInlineBlank = true) : ∀ c ∈ l, isBlank c = true :=
  fun c hc => isBlank_of_isInlineBlank (List.all_eq_true.mp hblank c hc)

theorem exists_shortenIndent (l : Text) : ∃ w w' : Text, (∀ c ∈ w, isInlineBlank c = true) ∧
    (∀ c ∈ w', isInlineBlank c = true) ∧ l = w ++ l.dropWhile isInlineBlank ∧
      shortenIndent l = w' ++ l.dropWhile isInlineBlank := by
  refine ⟨l.takeWhile isInlineBlank, _, fun c => List.mem_takeWhile_imp, ?_,
    List.takeWhile_append_dropWhile.symm, rfl⟩
  split
  · simp [isInlineBlank]
  · simp

theorem all_shortenIndent (l : Text) : (shortenIndent l).all isInlineBlank = l.all isInlineBlank := by
  obtain ⟨w, w', hw, hw', hl, hshort⟩ := exists_shortenIndent l
  conv_rhs => rw [hl, List.all_append, List.all_eq_true.mpr hw]
  rw [hshort, List.all_append, List.all_eq_true.mpr hw']

theorem strip_shortenIndent_append (l r : Text) : strip (shortenIndent l ++ r) = strip (l ++ r) := by
  obtain ⟨w, w', hw, hw', hl, hshort⟩ := exists_shortenIndent l
  conv_rhs => rw [hl, List.append_assoc, strip_blank_append (fun c hc => isBlank_of_isInlineBlank (hw c hc))]
  rw [hshort, List.append_assoc, strip_blank_append (fun c hc => isBlank_of_isInlineBlank (hw' c hc))]

theorem dropWhile_ne_nil_of_ink (hink : l.all isInlineBlank = false) : l.dropWhile isInlineBlank ≠ [] := by
  rw [Ne, List.dropWhile_eq_nil_iff, ← List.all_eq_true, hink]
  exact Bool.false_ne_true

theorem shortenIndent_append (hink : l.all isInlineBlank = false) (w : Text) :
    shortenIndent (l ++ w) = shortenIndent l ++ w := by
  have hne : l ≠ [] := by
    rintro rfl
    exact absurd hink (by decide)
  have hdrop : (l.dropWhile isInlineBlank).isEmpty = false := by
    simpa using List.dropWhile_eq_nil_iff.not.mp (dropWhile_ne_nil_of_ink hink)
  rw [shortenIndent, shortenIndent, List.head?_append_of_ne_nil l hne, List.dropWhile_append, hdrop,
    if_neg Bool.false_ne_true, List.append_assoc]

theorem isBlank_of_mem_shortenIndent (hblank : ∀ c ∈ l, isBlank c = true) :
    ∀ c ∈ shortenIndent l, isBlank c = true := by
  obtain ⟨w, w', -, hw', -, hshort⟩ := exists_shortenIndent l
  intro c hc
  rw [hshort, List.mem_append] at hc
  rcases hc with hc | hc
  · exact isBlank_of_isInlineBlank (hw' c hc)
  · exact hblank c ((List.dropWhile_suffix _).subset hc)

theorem strip_append_shortenIndent_append {w : Text} (hw : ∀ c ∈ w, isBlank c = true) (r l : Text) :
    strip (r ++ shortenIndent (l ++ w)) = strip (r ++ shortenIndent l) := by
  cases hink : l.all isInlineBlank with
  | true =>
      have hblank := isBlank_of_all_inline hink
      have hall : ∀ c ∈ l ++ w, isBlank c = true :=
        fun c hc => (List.mem_append.mp hc).elim (hblank c) (hw c)
      rw [strip_append_blank (isBlank_of_mem_shortenIndent hall),
        strip_append_blank (isBlank_of_mem_shortenIndent hblank)]
  | false => rw [shortenIndent_append hink, ← List.append_assoc, strip_append_blank hw]

theorem strip_keptLines_append (hl : ch '\n' ∉ l) (r : Text) :
    strip (headed (keptLines l) ++ r) = strip (l.rdropWhile isInlineBlank ++ r) := by
  cases hink : l.all isInlineBlank with
  | true =>
      rw [keptLines_of_blank hl hink, rdropWhile_eq_nil_of_all hink]
      rfl
  | false =>
      rw [keptLines_of_not_blank hl hink, headed_cons, List.cons_append, strip_blank_cons (by decide),
        List.append_assoc, compactLine, strip_shortenIndent_append]
      rfl

theorem strip_append_keptLines (hl : ch '\n' ∉ l) (r : Text) :
    strip (r ++ headed (keptLines l)) = strip (r ++ [ch '\n'] ++ shortenIndent l) := by
  have htail : ∀ c ∈ l.rtakeWhile isInlineBlank, isBlank c = true :=
    fun _ hc => isBlank_of_isInlineBlank (List.mem_rtakeWhile_imp hc)
  cases hink : l.all isInlineBlank with
  | true =>
      have hblank := isBlank_of_mem_shortenIndent (isBlank_of_all_inline hink)
      rw [keptLines_of_blank hl hink, strip_append_blank hblank,
        strip_append_blank (w := [ch '\n']) (by simp [isBlank, inRanges, blankRanges])]
      exact congrArg strip (List.append_nil r)
  | false =>
      have hwhole := strip_append_shortenIndent_append htail (r ++ [ch '\n']) (l.rdropWhile isInlineBlank)
      rw [List.rdropWhile_append_rtakeWhile] at hwhole
      rw [keptLines_of_not_blank hl hink, hwhole, List.append_assoc]
      simp [headed, compactLine]

end Line

section Blank

variable {c : CodePoint}

theorem strip_rdropWhile_cons_append (hc : isBlank c = true) (l r : Text) :
    strip ((c :: l).rdropWhile isInlineBlank ++ r) = strip (l.rdropWhile isInlineBlank ++ r) := by
  rw [rdropWhile_cons]
  split
  · rename_i hempty
    rw [List.isEmpty_iff.mp hempty]
    split
    · rfl
    · exact strip_blank_cons hc r
  · exact strip_blank_cons hc _

theorem strip_keptLines_blank_cons (hc : isBlank c = true) (t : Text) :
    strip (headed (keptLines (c :: t))) = strip (headed (keptLines t)) := by
  by_cases hnl : c = '\n'
  · have hcut := keptLines_append_newline [] t
    rw [hnl]
    exact congrArg (fun ls => strip (headed ls)) hcut
  · have hline {l : Text} (hl : ch '\n' ∉ l) (r : Text) :
        strip (headed (keptLines (c :: l)) ++ r) = strip (headed (keptLines l) ++ r) := by
      have hcl : ch '\n' ∉ c :: l := List.not_mem_cons_of_ne_of_not_mem (Ne.symm hnl) hl
      rw [strip_keptLines_append hcl, strip_keptLines_append hl, strip_rdropWhile_cons_append hc]
    cases t using line_induction with
    | last l hl => simpa using hline hl []
    | step l t hl _ =>
        rw [← List.cons_append, keptLines_append_newline, keptLines_append_newline, headed_append,
          headed_append]
        exact hline hl _

theorem strip_keptLines_concat_blank (hc : isBlank c = true) (r t : Text) :
    strip (r ++ headed (keptLines (t ++ [c]))) = strip (r ++ headed (keptLines t)) := by
  by_cases hnl : c = '\n'
  · rw [hnl, keptLines_append_newline, keptLines_of_blank List.not_mem_nil rfl, List.append_nil]
  · induction t using line_induction generalizing r with
    | last l hl =>
        have hlc : ch '\n' ∉ l ++ [c] := by simp [hl, Ne.symm hnl]
        rw [strip_append_keptLines hlc, strip_append_keptLines hl,
          strip_append_shortenIndent_append (by simpa using hc)]
    | step l t _ ih =>
        have hcut (u : Text) : r ++ headed (keptLines (l ++ ch '\n' :: u)) =
            r ++ headed (keptLines l) ++ headed (keptLines u) := by
          rw [keptLines_append_newline, headed_append, List.append_assoc]
        rw [List.append_assoc, List.cons_append, hcut, hcut, ih]

theorem strip_keptLines_blank_append {w : Text} (hw : ∀ c ∈ w, isBlank c = true) (t : Text) :
    strip (headed (keptLines (w ++ t))) = strip (headed (keptLines t)) := by
  induction w with
  | nil => rfl
  | cons c w ih =>
      rw [List.cons_append, strip_keptLines_blank_cons (hw c (List.mem_cons_self ..)),
        ih (fun d hd => hw d (List.mem_cons_of_mem _ hd))]

theorem strip_keptLines_append_blank {w : Text} (hw : ∀ c ∈ w, isBlank c = true) (t : Text) :
    strip (headed (keptLines (t ++ w))) = strip (headed (keptLines t)) := by
  induction w generalizing t with
  | nil => rw [List.append_nil]
  | cons c w ih =>
      have hlast := strip_keptLines_concat_blank (hw c (List.mem_cons_self ..)) [] t
      rw [← List.singleton_append, ← List.append_assoc,
        ih (fun d hd => hw d (List.mem_cons_of_mem _ hd))]
      exact hlast

theorem compactLines_eq (t : Text) : compactLines t = strip (headed (keptLines t)) :=
  (compactLines_eq_strip_lineByLine t).trans (strip_headed _).symm

theorem compactLines_strip (t : Text) : compactLines (strip t) = compactLines t := by
  obtain ⟨w, w', hw, hw', ht⟩ := exists_strip t
  rw [compactLines_eq, compactLines_eq]
  conv_rhs => rw [ht, strip_keptLines_blank_append hw, strip_keptLines_append_blank hw']

end Blank

section Again

variable {l : Text}

theorem all_compactLine (l : Text) : (compactLine l).all isInlineBlank = l.all isInlineBlank := by
  rw [compactLine, all_shortenIndent, all_rdropWhile (fun _ => id)]

theorem shortenIndent_shortenIndent (l : Text) : shortenIndent (shortenIndent l) = shortenIndent l := by
  cases hhead : l.head?.any isInlineBlank with
  | true =>
      have hshort : shortenIndent l = ch ' ' :: l.dropWhile isInlineBlank := by
        rw [shortenIndent, hhead, if_pos rfl, List.singleton_append]
      have hdrop : (ch ' ' :: l.dropWhile isInlineBlank).dropWhile isInlineBlank =
          l.dropWhile isInlineBlank := by
        rw [List.dropWhile_cons_of_pos (by decide), List.dropWhile_idempotent]
      rw [hshort, shortenIndent, hdrop]
      rfl
  | false =>
      have hshort : shortenIndent l = l := by
        rw [shortenIndent, hhead, if_neg Bool.false_ne_true, List.nil_append]
        cases l with
        | nil => rfl
        | cons c l => exact List.dropWhile_cons_of_neg (by simpa using hhead)
      rw [hshort, hshort]

theorem compactLine_compactLine (hink : l.all isInlineBlank = false) :
    compactLine (compactLine l) = compactLine l := by
  have htrim : (compactLine l).rdropWhile isInlineBlank = compactLine l := by
    obtain ⟨w, w', -, -, hl, hshort⟩ := exists_shortenIndent (l.rdropWhile isInlineBlank)
    have hbody := dropWhile_ne_nil_of_ink ((all_rdropWhile (fun _ => id) l).trans hink)
    rw [compactLine, hshort]
    generalize (l.rdropWhile isInlineBlank).dropWhile isInlineBlank = b at hl hbody ⊢
    have hlast := List.rdropWhile_last_not isInlineBlank l (by simp [hl, hbody])
    simp only [hl, List.getLast_append_of_ne_nil _ hbody] at hlast
    rw [List.rdropWhile_eq_self_iff]
    intro hne
    rwa [List.getLast_append_of_ne_nil _ hbody]
  rw [compactLine, htrim]
  exact shortenIndent_shortenIndent _

theorem lineByLine_lineByLine (t : Text) : lineByLine (lineByLine t) = lineByLine t := by
  have hkept : ∀ l ∈ keptLines t, ch '\n' ∉ l ∧ l.all isInlineBlank = false ∧ compactLine l = l := by
    intro l hl
    obtain ⟨l', hmem, rfl⟩ := List.mem_map.mp hl
    obtain ⟨hline, hink⟩ := List.mem_filter.mp hmem
    have hink' : l'.all isInlineBlank = false := by simpa using hink
    exact ⟨newline_not_mem_compactLine (newline_not_mem_of_mem_lines hline),
      (all_compactLine l').trans hink', compactLine_compactLine hink'⟩
  change unlines (keptLines (unlines (keptLines t))) = unlines (keptLines t)
  by_cases hnone : keptLines t = []
  · rw [hnone]
    rfl
  · rw [keptLines, lines_unlines hnone (fun l hl => (hkept l hl).1),
      List.filter_eq_self.mpr (fun l hl => by simp [(hkept l hl).2.1]),
      List.map_congr_left (g := id) (fun l hl => (hkept l hl).2.2), List.map_id]

theorem compactLines_compactLines (t : Text) : compactLines (compactLines t) = compactLines t := by
  rw [compactLines_eq_strip_lineByLine t, compactLines_strip, compactLines_eq_strip_lineByLine,
    lineByLine_lineByLine]

end Again

end CodeCompaction.Minify
