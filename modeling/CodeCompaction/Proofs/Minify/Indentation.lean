import Mathlib
import CodeCompaction.Minify.Basic
import CodeCompaction.Proofs.Comment.DocRun
import CodeCompaction.Proofs.Text.Blanks

namespace CodeCompaction.Minify

open CodeCompaction.Text CodeCompaction.Comment

def inkRows (t : Text) : List Text := (lines t).filter (fun l => !isAllBlank l)

def indents (t : Text) : List Text := (inkRows t).map indentation

section Rows

variable {l t : Text} {c : CodePoint}

theorem inkRows_append_newline (t u : Text) :
    inkRows (t ++ ch '\n' :: u) = inkRows t ++ inkRows u := by
  rw [inkRows, lines_append_newline, List.filter_append]
  rfl

theorem inkRows_cons_newline (t : Text) : inkRows (ch '\n' :: t) = inkRows t :=
  inkRows_append_newline [] t

theorem inkRows_of_no_newline (h : ch '\n' ∉ l) : inkRows l = [l].filter (fun l => !isAllBlank l) := by
  rw [inkRows, lines_of_no_newline h]

theorem indents_append_newline (t u : Text) : indents (t ++ ch '\n' :: u) = indents t ++ indents u := by
  rw [indents, inkRows_append_newline, List.map_append]
  rfl

theorem indents_cons_newline (t : Text) : indents (ch '\n' :: t) = indents t :=
  indents_append_newline [] t

theorem indents_of_ink (h : ch '\n' ∉ l) (hink : isAllBlank l = false) : indents l = [indentation l] := by
  rw [indents, inkRows_of_no_newline h, List.filter_cons_of_pos (by rw [hink]; rfl)]
  rfl

theorem indents_of_allBlank (h : ch '\n' ∉ l) (hblank : isAllBlank l = true) : indents l = [] := by
  rw [indents, inkRows_of_no_newline h, List.filter_cons_of_neg (by rw [hblank]; decide)]
  rfl

end Rows

section DropTrailing

theorem isAllBlank_rdropWhile (l : Text) :
    isAllBlank (l.rdropWhile isInlineBlank) = isAllBlank l :=
  all_rdropWhile (fun _ => isBlank_of_isInlineBlank) l

theorem indentation_rdropWhile {l : Text} (h : isAllBlank l = false) :
    indentation (l.rdropWhile isInlineBlank) = indentation l := by
  have hink : isAllBlank (l.rdropWhile isInlineBlank) = false := by rw [isAllBlank_rdropWhile, h]
  conv_rhs => rw [← List.rdropWhile_append_rtakeWhile (p := isInlineBlank) (l := l)]
  rw [indentation_append_of_ink hink]

theorem indents_dropTrailing (t : Text) : indents (dropTrailing t) = indents t := by
  have hlines : ∀ l ∈ (lines t).map (List.rdropWhile isInlineBlank), ch '\n' ∉ l := by
    intro l hl hnl
    obtain ⟨m, hm, rfl⟩ := List.mem_map.mp hl
    exact newline_not_mem_of_mem_lines hm ((List.rdropWhile_prefix _ m).subset hnl)
  rw [indents, inkRows, dropTrailing_eq_unlines,
    lines_unlines (by simpa using lines_ne_nil t) hlines, indents, inkRows, List.filter_map,
    List.map_map]
  have hfilter : (lines t).filter ((fun l => !isAllBlank l) ∘ List.rdropWhile isInlineBlank) =
      (lines t).filter (fun l => !isAllBlank l) :=
    List.filter_congr (fun l _ => by rw [Function.comp_apply, isAllBlank_rdropWhile])
  rw [hfilter]
  refine List.map_congr_left (fun l hl => ?_)
  exact indentation_rdropWhile (by simpa using (List.mem_filter.mp hl).2)

end DropTrailing

section CollapseBlankLines

theorem inkRows_of_afterBlankLine {l t r : Text} (hl : ∀ c ∈ l, isInlineBlank c = true)
    (h : afterBlankLine t = some r) : inkRows (l ++ t) = inkRows r := by
  induction t generalizing l with
  | nil => simp [afterBlankLine] at h
  | cons c cs ih =>
      simp only [afterBlankLine] at h
      split at h
      · rename_i hc
        obtain rfl : c = '\n' := by simpa using hc
        obtain rfl := Option.some.inj h
        have hblank : isAllBlank l = true :=
          List.all_eq_true.mpr (fun c hc => isBlank_of_isInlineBlank (hl c hc))
        have hnl : ch '\n' ∉ l := fun hm => absurd (hl _ hm) (by decide)
        rw [inkRows_append_newline, inkRows_of_no_newline hnl,
          List.filter_cons_of_neg (by rw [hblank]; decide)]
        rfl
      · split at h
        · rename_i hb
          have hsplit : l ++ c :: cs = (l ++ [c]) ++ cs := by simp
          rw [hsplit]
          refine ih (fun d hd => ?_) h
          rcases List.mem_append.mp hd with hd | hd
          · exact hl d hd
          · exact List.mem_singleton.mp hd ▸ hb
        · simp at h

theorem inkRows_skipBlankLines (t : Text) : inkRows (skipBlankLines t).2 = inkRows t := by
  fun_induction skipBlankLines t with
  | case1 t h => rfl
  | case2 t r h skipped ih =>
      change inkRows skipped.2 = inkRows r at ih
      rw [ih]
      exact (inkRows_of_afterBlankLine (l := []) (by simp) h).symm

-- `l` is the part of a line that stands before the text
theorem inkRows_append_collapseBlankLines (t : Text) : ∀ l : Text, ch '\n' ∉ l →
    inkRows (l ++ collapseBlankLines t) = inkRows (l ++ t) := by
  fun_induction collapseBlankLines t with
  | case1 => exact fun l _ => rfl
  | case2 c cs hc skipped _ ih =>
      intro l _
      obtain rfl : c = '\n' := by simpa using hc
      have hrest : inkRows (collapseBlankLines skipped.2) = inkRows cs :=
        (ih [] List.not_mem_nil).trans (inkRows_skipBlankLines cs)
      rw [inkRows_append_newline, inkRows_append_newline, inkRows_cons_newline, hrest]
  | case3 c cs hc skipped _ ih =>
      intro l _
      obtain rfl : c = '\n' := by simpa using hc
      have hrest : inkRows (collapseBlankLines cs) = inkRows cs := ih [] List.not_mem_nil
      rw [inkRows_append_newline, inkRows_append_newline, hrest]
  | case4 c cs hc ih =>
      intro l hl
      have hlc : ch '\n' ∉ l ++ [c] := by simpa [hl] using fun heq => hc (by simp [← heq])
      have hrest := ih (l ++ [c]) hlc
      rwa [List.append_assoc, List.append_assoc] at hrest

theorem indents_collapseBlankLines (t : Text) : indents (collapseBlankLines t) = indents t :=
  congrArg (List.map indentation) (inkRows_append_collapseBlankLines t [] List.not_mem_nil)

end CollapseBlankLines

section Strip

variable {c : CodePoint}

theorem indents_concat_blank (hc : isBlank c = true) (t : Text) : indents (t ++ [c]) = indents t := by
  by_cases hnl : c = '\n'
  · rw [hnl, indents_append_newline]
    exact List.append_nil _
  · induction t using line_induction with
    | last l hl =>
        have hlc : ch '\n' ∉ l ++ [c] := by simp [hl, Ne.symm hnl]
        have hall : isAllBlank (l ++ [c]) = isAllBlank l := by
          rw [isAllBlank_append, isAllBlank, isAllBlank, List.all_cons, hc]
          exact Bool.and_true _
        cases hink : isAllBlank l with
        | true => rw [indents_of_allBlank hlc (hall.trans hink), indents_of_allBlank hl hink]
        | false =>
            rw [indents_of_ink hlc (hall.trans hink), indents_of_ink hl hink,
              indentation_append_of_ink hink]
    | step l t _ ih =>
        rw [List.append_assoc, List.cons_append, indents_append_newline, indents_append_newline, ih]

theorem indents_append_blank {w : Text} (hw : ∀ c ∈ w, isBlank c = true) (t : Text) :
    indents (t ++ w) = indents t := by
  induction w generalizing t with
  | nil => rw [List.append_nil]
  | cons c w ih =>
      rw [← List.singleton_append, ← List.append_assoc,
        ih (fun d hd => hw d (List.mem_cons_of_mem _ hd)),
        indents_concat_blank (hw c (List.mem_cons_self ..))]

def firstUnindented (ws : List Text) : List Text := ws.modifyHead (fun _ => [])

theorem firstUnindented_append {ws ws' us : List Text} (h : firstUnindented ws = firstUnindented ws') :
    firstUnindented (ws ++ us) = firstUnindented (ws' ++ us) := by
  cases ws with
  | nil => cases ws' with
    | nil => rfl
    | cons w' ws' => simp [firstUnindented] at h
  | cons w ws => cases ws' with
    | nil => simp [firstUnindented] at h
    | cons w' ws' =>
        obtain rfl : ws = ws' := by simpa [firstUnindented] using h
        rfl

theorem firstUnindented_blank_cons (hc : isBlank c = true) (t : Text) :
    firstUnindented (indents (c :: t)) = firstUnindented (indents t) := by
  by_cases hnl : c = '\n'
  · rw [hnl, indents_cons_newline]
  · have hline {l : Text} (hl : ch '\n' ∉ l) :
        firstUnindented (indents (c :: l)) = firstUnindented (indents l) := by
      have hcl : ch '\n' ∉ c :: l := List.not_mem_cons_of_ne_of_not_mem (Ne.symm hnl) hl
      have hall : isAllBlank (c :: l) = isAllBlank l := by
        rw [isAllBlank, List.all_cons, hc, Bool.true_and, ← isAllBlank]
      cases hink : isAllBlank l with
      | true => rw [indents_of_allBlank hcl (hall.trans hink), indents_of_allBlank hl hink]
      | false =>
          rw [indents_of_ink hcl (hall.trans hink), indents_of_ink hl hink]
          rfl
    cases t using line_induction with
    | last l hl => exact hline hl
    | step l t hl _ =>
        rw [← List.cons_append, indents_append_newline, indents_append_newline]
        exact firstUnindented_append (hline hl)

theorem firstUnindented_blank_append {w : Text} (hw : ∀ c ∈ w, isBlank c = true) (t : Text) :
    firstUnindented (indents (w ++ t)) = firstUnindented (indents t) := by
  induction w with
  | nil => rfl
  | cons c w ih =>
      rw [List.cons_append, firstUnindented_blank_cons (hw c (List.mem_cons_self ..)),
        ih (fun d hd => hw d (List.mem_cons_of_mem _ hd))]

theorem firstUnindented_of_ink (hc : isBlank c = false) (t : Text) :
    firstUnindented (indents (c :: t)) = indents (c :: t) := by
  have hne : c ≠ '\n' := by
    rintro rfl
    exact absurd hc (by decide)
  have hbare := not_isInlineBlank_of_not_isBlank hc
  have hline {l : Text} (hl : ch '\n' ∉ l) : indents (c :: l) = [[]] := by
    have hcl : ch '\n' ∉ c :: l := List.not_mem_cons_of_ne_of_not_mem (Ne.symm hne) hl
    have hink : isAllBlank (c :: l) = false := by rw [isAllBlank, List.all_cons, hc, Bool.false_and]
    rw [indents_of_ink hcl hink, indentation, List.takeWhile_cons_of_neg (by rw [hbare]; decide)]
  cases t using line_induction with
  | last l hl =>
      rw [hline hl]
      rfl
  | step l t hl _ =>
      rw [← List.cons_append, indents_append_newline, hline hl]
      rfl

theorem indents_strip (t : Text) : indents (strip t) = firstUnindented (indents t) := by
  obtain ⟨w, w', hw, hw', ht⟩ := exists_strip t
  have hfirst : firstUnindented (indents t) = firstUnindented (indents (strip t)) := by
    conv_lhs => rw [ht, firstUnindented_blank_append hw, indents_append_blank hw']
  rw [hfirst]
  cases hs : strip t with
  | nil => rfl
  | cons c u =>
      refine (firstUnindented_of_ink ?_ u).symm
      have hl : (lstrip t).head? = some c := by
        have hprefix : strip t <+: lstrip t := List.rdropWhile_prefix isBlank (lstrip t)
        rw [hs] at hprefix
        obtain ⟨r, hr⟩ := hprefix
        rw [← hr, List.cons_append, List.head?_cons]
      have := List.head?_dropWhile_not isBlank t
      rw [← lstrip, hl] at this
      simpa using this

end Strip

section Minified

variable {limit : Json.NestingLimit} {ext t : Text}

theorem minify_of_whitespaceSignificant (hfamily : familyOf ext = .whitespaceSignificant)
    (hsize : withinSize t = true) : minify limit ext t = keepIndentation (remove ext t) := by
  rw [minify_eq, if_pos hsize, hfamily]
  rfl

theorem indents_minify (hfamily : familyOf ext = .whitespaceSignificant)
    (hsize : withinSize t = true) :
    indents (minify limit ext t) = firstUnindented (indents (remove ext t)) := by
  rw [minify_of_whitespaceSignificant hfamily hsize, keepIndentation, indents_strip,
    indents_collapseBlankLines, indents_dropTrailing]

theorem minify_keeps_indents_iff (hfamily : familyOf ext = .whitespaceSignificant)
    (hsize : withinSize t = true) :
    (indents (minify limit ext t)).length = (indents (remove ext t)).length ∧
      (indents (minify limit ext t)).tail = (indents (remove ext t)).tail ∧
      (indents (minify limit ext t) = indents (remove ext t) ↔
        ∀ w ∈ (indents (remove ext t)).head?, w = []) := by
  rw [indents_minify hfamily hsize]
  cases indents (remove ext t) with
  | nil => simp [firstUnindented]
  | cons w ws => simp [firstUnindented, eq_comm]

theorem minify_keeps_indents_below_key :
    indents (minify .usual "yaml".toText "\n\n# list\nkeys:\n  - a  \n\n\n\n\t - b\n ".toText) =
      [[], "  ".toText, "\t ".toText] := by
  have hfamily : familyOf "yaml".toText = .whitespaceSignificant := by cbv
  have hremove : indents (remove "yaml".toText "\n\n# list\nkeys:\n  - a  \n\n\n\n\t - b\n ".toText) =
      [[], "  ".toText, "\t ".toText] := by cbv
  rw [(minify_keeps_indents_iff hfamily (by decide)).2.2.mpr, hremove]
  rw [hremove]
  simp

theorem not_keeps_indent_of_first_line :
    ¬ ∀ (limit : Json.NestingLimit) (ext t : Text), familyOf ext = .whitespaceSignificant → withinSize t = true →
      indents (minify limit ext t) = indents (remove ext t) := by
  intro h
  have hfamily : familyOf "yaml".toText = .whitespaceSignificant := by cbv
  have hremove : indents (remove "yaml".toText "  a: 1\n  b: 2\n".toText) =
      ["  ".toText, "  ".toText] := by cbv
  have hminify : indents (minify .usual "yaml".toText "  a: 1\n  b: 2\n".toText) = _ :=
    indents_minify hfamily (by decide)
  rw [h _ _ _ hfamily (by decide), hremove] at hminify
  exact absurd hminify (by decide)

end Minified

end CodeCompaction.Minify
