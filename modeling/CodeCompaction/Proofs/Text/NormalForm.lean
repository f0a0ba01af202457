import CodeCompaction.Proofs.Text.Size
import CodeCompaction.Proofs.Text.Ways

namespace CodeCompaction.Text

/-- At most one empty line in a row, and no space or tab at the end of a line. -/
structure IsTidy (t : Text) : Prop where
  breaks : ¬ [ch '\n', '\n', '\n'] <:+: t
  ends : ∀ c, isInlineBlank c = true → ¬ [c, '\n'] <:+: t ∧ ¬ [c] <:+ t

def writtenLines (t : Text) : List Text := (lines t).filter (fun l => !l.all isInlineBlank)

def Pattern.replacing (p : Pattern) (out : Text) : Substitution := fun b t => (p b t).map (·, out)

def blankLine : Ways := .inTurn [.greedily (.one isInlineBlank), .word [ch '\n']]

def breakRun : Ways := .inTurn [.word [ch '\n'], blankLine, blankLine, .greedily blankLine]

def lineEnd : Ways := fun t => if atLineEnd t then [t] else []

def blanksAtEnd : Ways := .inTurn [.one isInlineBlank, .greedily (.one isInlineBlank), lineEnd]

section Runs

open Ways

theorem blankLine_eq (t : Text) : blankLine t = (afterBlankLine t).toList := by
  rw [blankLine, inTurn_cons, followedBy]
  induction t with
  | nil => rw [greedily_one_nil]; rfl
  | cons c t ih =>
      have hword : inTurn [word [ch '\n']] (c :: t) = if c == '\n' then [t] else [] := by
        rw [inTurn_cons, followedBy, word_singleton_cons]
        split <;> rfl
      rw [greedily_one_cons, List.flatMap_append, List.flatMap_singleton, hword, afterBlankLine]
      by_cases hc : c = '\n'
      · subst hc
        rfl
      · have hne : (c == '\n') = false := beq_false_of_ne hc
        rw [hne, if_neg Bool.false_ne_true, if_neg Bool.false_ne_true, List.append_nil]
        split
        · exact ih
        · rfl

theorem head?_greedily_blankLine (t : Text) :
    (greedily blankLine t).head? = some (skipBlankLines t).2 := by
  fun_induction skipBlankLines t with
  | case1 t h => rw [greedily, blankLine_eq, h]; rfl
  | case2 t r h skipped ih =>
      have hlen := afterBlankLine_length h
      rw [greedily, blankLine_eq, h, Option.toList_some, List.flatMap_singleton, dif_pos hlen,
        List.head?_append, ih, Option.some_or]

theorem head?_blankLine_followedBy (b : Ways) (t : Text) :
    (followedBy blankLine b t).head? = (afterBlankLine t).bind (fun r => (b r).head?) := by
  rw [head?_followedBy, blankLine_eq]
  cases afterBlankLine t <;> simp

theorem skipBlankLines_of_none {t : Text} (h : afterBlankLine t = none) : skipBlankLines t = (0, t) := by
  rw [skipBlankLines]
  split
  · rfl
  · simp_all

theorem skipBlankLines_of_some {t r : Text} (h : afterBlankLine t = some r) :
    skipBlankLines t = ((skipBlankLines r).1 + 1, (skipBlankLines r).2) := by
  rw [skipBlankLines]
  split
  · simp_all
  · rename_i r' h'
    obtain rfl := Option.some.inj (h'.symm.trans h)
    rfl

theorem head?_breakRun_newline (t : Text) : (breakRun (ch '\n' :: t)).head? =
    if 2 ≤ (skipBlankLines t).1 then some (skipBlankLines t).2 else none := by
  rw [breakRun, inTurn_cons, inTurn_cons, inTurn_cons, inTurn_singleton, head?_word_followedBy]
  simp only [List.isPrefixOf, beq_self_eq_true, Bool.and_true, if_true, List.length_singleton,
    List.drop_succ_cons, List.drop_zero, head?_blankLine_followedBy, head?_greedily_blankLine]
  cases h : afterBlankLine t with
  | none => simp [skipBlankLines_of_none h]
  | some r =>
      rw [skipBlankLines_of_some h]
      cases h' : afterBlankLine r with
      | none => simp [skipBlankLines_of_none h', h']
      | some r' => simp [skipBlankLines_of_some h', h']

theorem head?_breakRun_of_ne {c : CodePoint} (hc : c ≠ '\n') (t : Text) : (breakRun (c :: t)).head? = none := by
  rw [breakRun, inTurn_cons, followedBy, word_singleton_cons, beq_false_of_ne hc]
  rfl

theorem afterBlankLine_suffix {t r : Text} (h : afterBlankLine t = some r) : r <:+ t := by
  induction t with
  | nil => simp [afterBlankLine] at h
  | cons c t ih =>
      simp only [afterBlankLine] at h
      split at h
      · rw [← Option.some.inj h]
        exact List.suffix_cons c t
      · split at h
        · exact (ih h).trans (List.suffix_cons c t)
        · simp at h

theorem skipBlankLines_suffix (t : Text) : (skipBlankLines t).2 <:+ t := by
  fun_induction skipBlankLines t with
  | case1 t h => exact List.suffix_refl t
  | case2 t r h skipped ih => exact ih.trans (afterBlankLine_suffix h)

theorem rewrite_breakRun (t : Text) :
    rewrite (breakRun.pattern.replacing [ch '\n', '\n']) t = collapseBlankLines t := by
  have hflagless : (breakRun.pattern.replacing [ch '\n', '\n']).Flagless := fun _ _ => rfl
  fun_induction collapseBlankLines t with
  | case1 => rfl
  | case2 c cs hc skipped hs ih =>
      obtain rfl : c = '\n' := by simpa using hc
      obtain ⟨v, hv⟩ := skipBlankLines_suffix cs
      have hlen := congrArg List.length hv
      rw [List.length_append] at hlen
      have hmatch : breakRun.pattern.replacing [ch '\n', (ch '\n')] true ((ch '\n' :: v) ++ skipped.2) =
          some ((ch '\n' :: v).length, [ch '\n', '\n']) := by
        rw [List.cons_append, hv, Pattern.replacing, pattern, head?_breakRun_newline, if_pos hs]
        simp
        omega
      have := rewrite_append_of_match hflagless (List.cons_ne_nil _ _) hmatch
      rw [List.cons_append, hv, ih] at this
      exact this
  | case3 c cs hc skipped hs ih =>
      obtain rfl : c = '\n' := by simpa using hc
      rw [rewrite_cons_of_none hflagless, ih]
      rw [Pattern.replacing, pattern, head?_breakRun_newline, if_neg hs]
      rfl
  | case4 c cs hc ih =>
      rw [rewrite_cons_of_none hflagless, ih]
      rw [Pattern.replacing, pattern, head?_breakRun_of_ne (by simpa using hc)]
      rfl

end Runs

section Ends

open Ways

theorem head?_blanksAtEnd_cons (c : CodePoint) (t : Text) : (blanksAtEnd (c :: t)).head? =
    if isInlineBlank c && atLineEnd (t.dropWhile isInlineBlank) then some (t.dropWhile isInlineBlank)
    else none := by
  have hinside : ∀ c u, isInlineBlank c = true → (lineEnd (c :: u)).head? = none := by
    intro c u hc
    have hne : c ≠ '\n' := by
      rintro rfl
      exact absurd hc (by decide)
    simp [lineEnd, atLineEnd, hne]
  rw [blanksAtEnd, inTurn_cons, head?_one_followedBy_cons, inTurn_cons, inTurn_singleton,
    head?_greedily_one_followedBy hinside, lineEnd]
  cases isInlineBlank c <;> cases atLineEnd (t.dropWhile isInlineBlank) <;> rfl

theorem atLineEnd_dropTrailing (t : Text) :
    atLineEnd (dropTrailing t) = atLineEnd (t.dropWhile isInlineBlank) := by
  induction t with
  | nil => rfl
  | cons c t ih =>
      rw [dropTrailing_cons]
      cases hc : isInlineBlank c with
      | false => rw [Bool.false_and, if_neg Bool.false_ne_true, List.dropWhile_cons_of_neg (by simp [hc])]; rfl
      | true =>
          have hne : c ≠ '\n' := by
            rintro rfl
            exact absurd hc (by decide)
          rw [Bool.true_and, List.dropWhile_cons_of_pos hc, ← ih]
          split
          · rfl
          · rename_i hend
            rw [Bool.eq_false_iff.mpr hend]
            exact beq_false_of_ne hne

theorem dropTrailing_dropWhile {t : Text} (h : atLineEnd (t.dropWhile isInlineBlank) = true) :
    dropTrailing (t.dropWhile isInlineBlank) = dropTrailing t := by
  induction t with
  | nil => rfl
  | cons c t ih =>
      cases hc : isInlineBlank c with
      | false => rw [List.dropWhile_cons_of_neg (by simp [hc])]
      | true =>
          rw [List.dropWhile_cons_of_pos hc] at h ⊢
          rw [dropTrailing_cons, atLineEnd_dropTrailing, hc, h, if_pos (Bool.and_self true), ih h]

theorem erase_blanksAtEnd (t : Text) : erase blanksAtEnd.pattern t = dropTrailing t := by
  have hflagless : blanksAtEnd.pattern.Flagless := fun _ _ => rfl
  -- a match takes the front of the text, so the induction is on its length
  induction hn : t.length using Nat.strongRecOn generalizing t with
  | ind n ih =>
      cases t with
      | nil => rfl
      | cons c t =>
          rw [dropTrailing_cons, atLineEnd_dropTrailing]
          cases hmatch : isInlineBlank c && atLineEnd (t.dropWhile isInlineBlank) with
          | false =>
              rw [if_neg Bool.false_ne_true, erase_cons_of_none hflagless, ih t.length (by simp [← hn]) t rfl]
              rw [pattern, head?_blanksAtEnd_cons, hmatch]
              rfl
          | true =>
              have hend := (Bool.and_eq_true_iff.mp hmatch).2
              have hsplit := List.takeWhile_append_dropWhile (p := isInlineBlank) (l := t)
              have hlen := congrArg List.length hsplit
              rw [List.length_append] at hlen
              have htake : blanksAtEnd.pattern true
                  ((c :: t.takeWhile isInlineBlank) ++ t.dropWhile isInlineBlank) =
                    some (c :: t.takeWhile isInlineBlank).length := by
                rw [List.cons_append, hsplit, pattern, head?_blanksAtEnd_cons, hmatch]
                simp
                omega
              have hrest := ih (t.dropWhile isInlineBlank).length
                (by rw [← hn, List.length_cons]; omega) _ rfl
              have := erase_append_of_match hflagless (List.cons_ne_nil _ _) htake
              rw [List.cons_append, hsplit, hrest, dropTrailing_dropWhile hend] at this
              rw [if_pos rfl, this]

end Ends

section Commuting

theorem dropTrailing_dropTrailing (t : Text) : dropTrailing (dropTrailing t) = dropTrailing t := by
  induction t with
  | nil => rfl
  | cons c t ih =>
      rw [dropTrailing_cons]
      split
      · exact ih
      · rename_i hkeep
        rw [dropTrailing_cons, ih, if_neg hkeep]

theorem dropTrailing_eq_self_of_suffix {s t : Text} (h : dropTrailing t = t) (hs : s <:+ t) :
    dropTrailing s = s := by
  induction t with
  | nil => rw [List.suffix_nil.mp hs]; rfl
  | cons c t ih =>
      have htail : dropTrailing t = t := by
        rw [dropTrailing_cons] at h
        split at h
        · have hshort := (dropTrailing_sublist t).length_le
          rw [h, List.length_cons] at hshort
          omega
        · exact (List.cons.inj h).2
      rcases List.suffix_cons_iff.mp hs with rfl | hs
      · exact h
      · exact ih htail hs

theorem atLineEnd_collapseBlankLines (t : Text) : atLineEnd (collapseBlankLines t) = atLineEnd t := by
  cases t with
  | nil => simp [collapseBlankLines]
  | cons c t =>
      rw [collapseBlankLines]
      split
      · rename_i hc
        obtain rfl : c = '\n' := by simpa using hc
        dsimp only
        split <;> rfl
      · rfl

theorem dropTrailing_collapseBlankLines_of_eq_self {t : Text} (h : dropTrailing t = t) :
    dropTrailing (collapseBlankLines t) = collapseBlankLines t := by
  fun_induction collapseBlankLines t with
  | case1 => rfl
  | case2 c cs hc skipped hs ih =>
      have hrest := dropTrailing_eq_self_of_suffix h
        ((skipBlankLines_suffix cs).trans (List.suffix_cons c cs))
      rw [dropTrailing_newline, dropTrailing_newline, ih hrest]
  | case3 c cs hc skipped hs ih =>
      obtain rfl : c = '\n' := by simpa using hc
      rw [dropTrailing_newline, ih (dropTrailing_eq_self_of_suffix h (List.suffix_cons _ cs))]
  | case4 c cs hc ih =>
      have hcs := dropTrailing_eq_self_of_suffix h (List.suffix_cons c cs)
      have hkeep : ¬ (isInlineBlank c && atLineEnd cs) = true := by
        intro hdrop
        rw [dropTrailing_cons, hcs, if_pos hdrop] at h
        exact List.cons_ne_self c cs h.symm
      rw [dropTrailing_cons, ih hcs, atLineEnd_collapseBlankLines, if_neg hkeep]

theorem atLineEnd_tidied {t : Text} (h : atLineEnd t = true) : atLineEnd (tidied t) = true := by
  cases t with
  | nil => rfl
  | cons c t =>
      obtain rfl : c = '\n' := by simpa [atLineEnd] using h
      exact atLineEnd_of_startsLine (startsLine_tidyStep_newline _)

theorem tidied_dropTrailing (t : Text) : tidied (dropTrailing t) = tidied t := by
  induction t with
  | nil => rfl
  | cons c t ih =>
      rw [dropTrailing_cons, tidied_cons]
      split
      · rename_i hdrop
        obtain ⟨hc, hend⟩ := Bool.and_eq_true_iff.mp hdrop
        have hend := atLineEnd_tidied hend
        rw [ih] at hend ⊢
        exact (tidyStep_inlineBlank hc hend).symm
      · rw [tidied_cons, ih]

theorem collapseBlankLines_dropTrailing (t : Text) : collapseBlankLines (dropTrailing t) = tidied t := by
  have hend := dropTrailing_collapseBlankLines_of_eq_self (dropTrailing_dropTrailing t)
  rw [← hend, ← tidied_dropTrailing t, ← tidy_eq_tidied, tidy]

end Commuting

section NormalForm

variable {c : CodePoint} {t : Text}

theorem startsLine_iff : startsLine t = true ↔ [ch '\n'] <+: t := by
  cases t with
  | nil => simp [startsLine]
  | cons c t => rw [List.cons_prefix_cons]; simp [startsLine, eq_comm (a := c)]

theorem startsDouble_iff : startsDouble t = true ↔ [ch '\n', '\n'] <+: t := by
  rw [startsDouble, Bool.and_eq_true_iff, startsLine_iff, startsLine_iff]
  cases t with
  | nil => simp
  | cons c t => rw [List.cons_prefix_cons, List.cons_prefix_cons, List.tail_cons]; simp

theorem tidyStep_eq_cons_iff : tidyStep c t = c :: t ↔
    ¬ (isInlineBlank c = true ∧ atLineEnd t = true) ∧ ¬ (c = '\n' ∧ startsDouble t = true) := by
  rw [← not_or, tidyStep]
  split
  · rename_i hdrop
    refine iff_of_false (List.cons_ne_self c t).symm (not_not_intro ?_)
    simpa using hdrop
  · rename_i hkeep
    refine iff_of_true rfl ?_
    simpa using hkeep

theorem count_tidied (hc : isBlank c = false) (t : Text) : (tidied t).count c = t.count c := by
  induction t with
  | nil => rfl
  | cons d t ih =>
      rw [tidied_cons, tidyStep]
      split
      · rename_i hdrop
        have hd : d ≠ c := by
          rintro rfl
          rcases Bool.or_eq_true_iff.mp hdrop with hdrop | hdrop
          · have := isBlank_of_isInlineBlank (Bool.and_eq_true_iff.mp hdrop).1
            exact Bool.false_ne_true (hc.symm.trans this)
          · have := beq_iff_eq.mp (Bool.and_eq_true_iff.mp hdrop).1
            exact absurd (this ▸ hc) (by decide)
        rw [ih, List.count_cons_of_ne hd]
      · rw [List.count_cons, List.count_cons, ih]

theorem isTidy_nil : IsTidy [] := ⟨by simp, by simp⟩

theorem isTidy_cons : IsTidy (c :: t) ↔ IsTidy t ∧ tidyStep c t = c :: t := by
  have htail : t <:+: c :: t := (List.suffix_cons c t).isInfix
  rw [tidyStep_eq_cons_iff, startsDouble_iff]
  constructor
  · intro h
    refine ⟨⟨fun hb => h.breaks (hb.trans htail), fun d hd => ?_⟩, ?_, ?_⟩
    · exact ⟨fun hi => (h.ends d hd).1 (hi.trans htail),
        fun hs => (h.ends d hd).2 (hs.trans (List.suffix_cons c t))⟩
    · rintro ⟨hc, hend⟩
      cases t with
      | nil => exact (h.ends c hc).2 (List.suffix_refl _)
      | cons d t =>
          obtain rfl : d = '\n' := by simpa [atLineEnd] using hend
          exact (h.ends c hc).1 ⟨[], t, rfl⟩
    · rintro ⟨rfl, hdouble⟩
      exact h.breaks (List.cons_prefix_cons.mpr ⟨rfl, hdouble⟩).isInfix
  · rintro ⟨ht, hends, hbreaks⟩
    refine ⟨fun hb => ?_, fun d hd => ⟨fun hi => ?_, fun hs => ?_⟩⟩
    · rcases List.infix_cons_iff.mp hb with hb | hb
      · obtain ⟨rfl, hdouble⟩ := List.cons_prefix_cons.mp hb
        exact hbreaks ⟨rfl, hdouble⟩
      · exact ht.breaks hb
    · rcases List.infix_cons_iff.mp hi with hi | hi
      · obtain ⟨rfl, hline⟩ := List.cons_prefix_cons.mp hi
        exact hends ⟨hd, atLineEnd_of_startsLine (startsLine_iff.mpr hline)⟩
      · exact (ht.ends d hd).1 hi
    · rcases List.suffix_cons_iff.mp hs with hs | hs
      · obtain ⟨rfl, rfl⟩ := List.cons.inj hs
        exact hends ⟨hd, rfl⟩
      · exact (ht.ends d hd).2 hs

theorem isTidy_iff : IsTidy t ↔ tidied t = t := by
  induction t with
  | nil => exact iff_of_true isTidy_nil rfl
  | cons c t ih =>
      rw [isTidy_cons, ih, tidied_cons]
      constructor
      · rintro ⟨ht, hkeep⟩
        rw [ht, hkeep]
      · intro h
        have ht : tidied t = t := by
          rcases tidyStep_eq_cases c (tidied t) with hdrop | hkeep
          · have hshort := (tidied_sublist t).length_le
            rw [← hdrop, h, List.length_cons] at hshort
            omega
          · exact (List.cons.inj (hkeep.symm.trans h)).2
        rw [ht] at h
        exact ⟨ht, h⟩

theorem isTidy_tidied (t : Text) : IsTidy (tidied t) := isTidy_iff.mpr (tidied_tidied t)

end NormalForm

section Written

variable {l t : Text}

theorem foldr_tidyStep_line {z : Text} (hl : ch '\n' ∉ l) (hz : atLineEnd z = true) :
    l.foldr tidyStep z = l.rdropWhile isInlineBlank ++ z := by
  induction l with
  | nil => rfl
  | cons c l ih =>
      have hc : (c == '\n') = false := beq_false_of_ne (List.ne_of_not_mem_cons hl).symm
      rw [List.foldr_cons, ih (List.not_mem_of_not_mem_cons hl), tidyStep, hc, Bool.false_and,
        Bool.or_false, rdropWhile_cons]
      cases hrest : l.rdropWhile isInlineBlank with
      | nil => cases hblank : isInlineBlank c <;> simp [hz]
      | cons d r =>
          have hd : d ∈ l := (List.rdropWhile_prefix isInlineBlank l).subset
            (hrest ▸ List.mem_cons_self .. : d ∈ l.rdropWhile isInlineBlank)
          have hne : d ≠ '\n' := fun heq => hl (List.mem_cons_of_mem _ (heq ▸ hd))
          simp [atLineEnd, hne]

theorem writtenLines_append_newline (t u : Text) :
    writtenLines (t ++ ch '\n' :: u) = writtenLines t ++ writtenLines u := by
  rw [writtenLines, lines_append_newline, List.filter_append]
  rfl

theorem writtenLines_cons_newline (t : Text) : writtenLines (ch '\n' :: t) = writtenLines t :=
  writtenLines_append_newline [] t

theorem writtenLines_rdropWhile (hl : ch '\n' ∉ l) : writtenLines (l.rdropWhile isInlineBlank) =
    (writtenLines l).map (List.rdropWhile isInlineBlank) := by
  have hdrop : ch '\n' ∉ l.rdropWhile isInlineBlank :=
    fun hm => hl ((List.rdropWhile_prefix isInlineBlank l).subset hm)
  rw [writtenLines, writtenLines, lines_of_no_newline hdrop, lines_of_no_newline hl, List.filter_cons,
    List.filter_cons, all_rdropWhile (fun _ => id)]
  split <;> rfl

theorem exists_tidied_cons_newline (t : Text) : ∃ u, tidied (ch '\n' :: t) = ch '\n' :: u ∧
    writtenLines u = writtenLines (tidied t) := by
  rw [tidied_cons]
  cases h : startsDouble (tidied t) with
  | false => exact ⟨tidied t, tidyStep_newline_of_not_double h, rfl⟩
  | true =>
      obtain ⟨u, hu⟩ := startsDouble_iff.mp h
      refine ⟨ch '\n' :: u, (tidyStep_newline_of_double h).trans hu.symm, ?_⟩
      rw [← hu]
      exact (writtenLines_cons_newline (ch '\n' :: u)).symm

theorem writtenLines_tidied (t : Text) :
    writtenLines (tidied t) = (writtenLines t).map (List.rdropWhile isInlineBlank) := by
  induction t using line_induction with
  | last l hl =>
      have h := foldr_tidyStep_line (z := []) hl rfl
      rw [List.append_nil] at h
      rw [tidied, h, writtenLines_rdropWhile hl]
  | step l t hl ih =>
      obtain ⟨u, hu, hwritten⟩ := exists_tidied_cons_newline t
      have hsplit : tidied (l ++ ch '\n' :: t) = l.rdropWhile isInlineBlank ++ ch '\n' :: u := by
        rw [tidied, List.foldr_append, ← tidied, hu, foldr_tidyStep_line hl rfl]
      rw [hsplit, writtenLines_append_newline, writtenLines_append_newline, List.map_append,
        writtenLines_rdropWhile hl, hwritten, ih]

theorem lines_dropTrailing (t : Text) :
    lines (dropTrailing t) = (lines t).map (List.rdropWhile isInlineBlank) := by
  rw [dropTrailing_eq_unlines]
  refine lines_unlines (by simpa using lines_ne_nil t) (fun l' hl' hm => ?_)
  obtain ⟨l, hl, rfl⟩ := List.mem_map.mp hl'
  exact newline_not_mem_of_mem_lines hl ((List.rdropWhile_prefix isInlineBlank l).subset hm)

theorem mem_lines_tidied {t : Text} (h : l ∈ lines (tidied t)) :
    l = [] ∨ ∃ l₀ ∈ lines t, l = l₀.rdropWhile isInlineBlank := by
  cases hblank : l.all isInlineBlank with
  | false =>
      have hwritten : l ∈ writtenLines (tidied t) := List.mem_filter.mpr ⟨h, by rw [hblank]; rfl⟩
      rw [writtenLines_tidied] at hwritten
      obtain ⟨l₀, hl₀, rfl⟩ := List.mem_map.mp hwritten
      exact .inr ⟨l₀, (List.mem_filter.mp hl₀).1, rfl⟩
  | true =>
      rw [← tidy_eq_tidied, tidy, lines_dropTrailing] at h
      obtain ⟨l₀, -, rfl⟩ := List.mem_map.mp h
      rw [all_rdropWhile (fun _ => id)] at hblank
      exact .inl (List.rdropWhile_eq_nil_iff.mpr (List.all_eq_true.mp hblank))

end Written

end CodeCompaction.Text
