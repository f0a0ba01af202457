import CodeCompaction.Minify.Spacing
import CodeCompaction.Proofs.Text.Blanks

namespace CodeCompaction.Minify

open CodeCompaction.Text

def shortenIndent (l : Text) : Text :=
  (if l.head?.any isInlineBlank then [ch ' '] else []) ++ l.dropWhile isInlineBlank

def compactLine (l : Text) : Text := shortenIndent (l.rdropWhile isInlineBlank)

def lineByLine (t : Text) : Text :=
  unlines (((lines t).filter (fun l => !l.all isInlineBlank)).map compactLine)

def headed (ls : List Text) : Text := ls.flatMap (ch '\n' :: ·)

section Headed

theorem headed_cons (l : Text) (ls : List Text) : headed (l :: ls) = ch '\n' :: (l ++ headed ls) := rfl

theorem headed_append (ls ls' : List Text) : headed (ls ++ ls') = headed ls ++ headed ls' :=
  List.flatMap_append

theorem headed_eq_unlines {ls : List Text} (h : ls ≠ []) : headed ls = ch '\n' :: unlines ls := by
  induction ls with
  | nil => exact absurd rfl h
  | cons l ls ih =>
      cases ls with
      | nil => simp [headed]
      | cons l' ls =>
          rw [headed_cons, ih (List.cons_ne_nil _ _), unlines_cons_of_ne_nil l (List.cons_ne_nil _ _)]

theorem strip_headed (ls : List Text) : strip (headed ls) = strip (unlines ls) := by
  by_cases h : ls = []
  · rw [h]
    rfl
  · rw [headed_eq_unlines h, strip_blank_cons (by decide)]

theorem startsLine_headed {ls : List Text} (h : ls ≠ []) : startsLine (headed ls) = true := by
  rw [headed_eq_unlines h]
  rfl

end Headed

section JoinBreaks

theorem joinBreaks_line_append {l : Text} (hl : ch '\n' ∉ l) (t : Text) :
    joinBreaks (l ++ t) = l ++ joinBreaks t := by
  induction l with
  | nil => rfl
  | cons c l ih =>
      have hc : c ≠ '\n' := (List.ne_of_not_mem_cons hl).symm
      rw [List.cons_append, joinBreaks, ih (List.not_mem_of_not_mem_cons hl)]
      simp [hc]

theorem joinBreaks_newline (t : Text) :
    joinBreaks (ch '\n' :: t) = if startsLine t then joinBreaks t else ch '\n' :: joinBreaks t := by
  rw [joinBreaks]
  simp

theorem startsLine_line_append {l : Text} (hl : ch '\n' ∉ l) (hne : l ≠ []) (t : Text) :
    startsLine (l ++ t) = false := by
  obtain ⟨c, l', rfl⟩ := List.exists_cons_of_ne_nil hne
  have hc : c ≠ '\n' := (List.ne_of_not_mem_cons hl).symm
  simpa [startsLine] using hc

theorem joinBreaks_headed {ls : List Text} (h : ∀ l ∈ ls, ch '\n' ∉ l) :
    ∃ b, (b = [] ∨ b = [ch '\n']) ∧
      joinBreaks (headed ls) = headed (ls.filter (fun l => !l.isEmpty)) ++ b := by
  induction ls with
  | nil => exact ⟨[], .inl rfl, rfl⟩
  | cons l ls ih =>
      have hl := h l (List.mem_cons_self ..)
      obtain ⟨b, hb, heq⟩ := ih (fun m hm => h m (List.mem_cons_of_mem _ hm))
      rw [headed_cons, joinBreaks_newline]
      by_cases hempty : l = []
      · -- its line feed gives way to the next one, and stays only behind the last line
        subst hempty
        by_cases hls : ls = []
        · subst hls
          exact ⟨[ch '\n'], .inr rfl, rfl⟩
        · rw [List.nil_append, startsLine_headed hls]
          exact ⟨b, hb, heq⟩
      · have hkeep : (l :: ls).filter (fun l => !l.isEmpty) = l :: ls.filter (fun l => !l.isEmpty) :=
          List.filter_cons_of_pos (by simpa using hempty)
        rw [startsLine_line_append hl hempty, joinBreaks_line_append hl, heq, hkeep, headed_cons]
        exact ⟨b, hb, by simp⟩

end JoinBreaks

section ShortenIndents

theorem rewriteFrom_indent_line {l : Text} (hl : ch '\n' ∉ l) (u : Text) :
    rewriteFrom indentToSpace false 0 (l ++ u) = l ++ rewriteFrom indentToSpace false 0 u := by
  induction l with
  | nil => rfl
  | cons c l ih =>
      have hc : (c == '\n') = false := by simpa using (List.ne_of_not_mem_cons hl).symm
      rw [List.cons_append, rewriteFrom, hc, ih (List.not_mem_of_not_mem_cons hl)]
      rfl

theorem rewriteFrom_indent_skip {w : Text} (hw : ch '\n' ∉ w) (u : Text) :
    rewriteFrom indentToSpace false w.length (w ++ u) = rewriteFrom indentToSpace false 0 u := by
  induction w with
  | nil => rfl
  | cons c w ih =>
      have hc : (c == '\n') = false := by simpa using (List.ne_of_not_mem_cons hw).symm
      rw [List.cons_append, List.length_cons, rewriteFrom, hc, ih (List.not_mem_of_not_mem_cons hw)]

theorem newline_not_mem_takeWhile (l : Text) : ch '\n' ∉ l.takeWhile isInlineBlank := by
  intro h
  have := List.mem_takeWhile_imp h
  simp [isInlineBlank] at this

theorem shortenIndents_newline (u : Text) : shortenIndents (ch '\n' :: u) = ch '\n' :: shortenIndents u := by
  rw [shortenIndents, rewrite, rewriteFrom]
  rfl

theorem rewriteFrom_indent_of_atLineEnd {u : Text} (hu : atLineEnd u = true) :
    rewriteFrom indentToSpace false 0 u = shortenIndents u := by
  cases u with
  | nil => rfl
  | cons c u =>
      obtain rfl : c = '\n' := by simpa [atLineEnd] using hu
      rw [shortenIndents_newline, rewriteFrom]
      rfl

theorem takeWhile_line_append {u : Text} (hu : atLineEnd u = true) (l : Text) :
    (l ++ u).takeWhile isInlineBlank = l.takeWhile isInlineBlank := by
  have htake : u.takeWhile isInlineBlank = [] := by
    cases u with
    | nil => rfl
    | cons c u =>
        obtain rfl : c = '\n' := by simpa [atLineEnd] using hu
        rfl
  rw [List.takeWhile_append, htake, List.append_nil]
  split
  · rename_i hall
    exact ((List.takeWhile_prefix isInlineBlank).eq_of_length hall).symm
  · rfl

theorem shortenIndents_line_append {l u : Text} (hl : ch '\n' ∉ l) (hu : atLineEnd u = true) :
    shortenIndents (l ++ u) = shortenIndent l ++ shortenIndents u := by
  rw [← rewriteFrom_indent_of_atLineEnd hu]
  cases l with
  | nil => exact (rewriteFrom_indent_of_atLineEnd hu).symm
  | cons c l =>
      have hrest := List.not_mem_of_not_mem_cons hl
      have hc : (c == '\n') = false := by simpa using (List.ne_of_not_mem_cons hl).symm
      have htake := takeWhile_line_append hu (c :: l)
      rw [List.cons_append] at htake
      rw [List.cons_append, shortenIndents, rewrite, rewriteFrom, hc, indentToSpace, if_pos rfl, htake]
      cases hblank : isInlineBlank c with
      | false =>
          simp [hblank, shortenIndent, rewriteFrom_indent_line hrest]
      | true =>
          have hsplit : l ++ u =
              l.takeWhile isInlineBlank ++ (l.dropWhile isInlineBlank ++ u) := by
            rw [← List.append_assoc, List.takeWhile_append_dropWhile]
          have hkept : ch '\n' ∉ l.dropWhile isInlineBlank :=
            fun hm => hrest ((List.dropWhile_suffix _).subset hm)
          rw [List.takeWhile_cons_of_pos hblank, List.length_cons]
          simp only
          rw [hsplit, rewriteFrom_indent_skip (newline_not_mem_takeWhile l),
            rewriteFrom_indent_line hkept]
          simp [shortenIndent, hblank]

theorem shortenIndents_headed {ls : List Text} (h : ∀ l ∈ ls, ch '\n' ∉ l) {b : Text}
    (hb : b = [] ∨ b = [ch '\n']) :
    shortenIndents (headed ls ++ b) = headed (ls.map shortenIndent) ++ b := by
  induction ls with
  | nil => rcases hb with rfl | rfl <;> rfl
  | cons l ls ih =>
      have hend : atLineEnd (headed ls ++ b) = true := by
        cases ls with
        | nil => rcases hb with rfl | rfl <;> rfl
        | cons l' ls => rfl
      rw [headed_cons, List.cons_append, List.append_assoc, shortenIndents_newline,
        shortenIndents_line_append (h l (List.mem_cons_self ..)) hend,
        ih (fun m hm => h m (List.mem_cons_of_mem _ hm)), List.map_cons, headed_cons]
      simp

end ShortenIndents

theorem strip_shortenIndents_joinBreaks_newline (u : Text) :
    strip (shortenIndents (joinBreaks (ch '\n' :: u))) = strip (shortenIndents (joinBreaks u)) := by
  rw [joinBreaks_newline]
  split
  · rfl
  · rw [shortenIndents_newline, strip_blank_cons (by decide)]

theorem newline_not_mem_rdropWhile {l : Text} (hl : ch '\n' ∉ l) :
    ch '\n' ∉ l.rdropWhile isInlineBlank :=
  fun hm => hl ((List.rdropWhile_prefix isInlineBlank l).subset hm)

theorem kept_map_shortenIndent (ls : List Text) :
    ((ls.map (List.rdropWhile isInlineBlank)).filter (fun l => !l.isEmpty)).map shortenIndent =
      (ls.filter (fun l => !l.all isInlineBlank)).map compactLine := by
  have hkept : (fun l : Text => !l.isEmpty) ∘ List.rdropWhile isInlineBlank =
      fun l => !l.all isInlineBlank := by
    funext l
    rw [Function.comp_apply, Bool.not_inj_iff, Bool.eq_iff_iff, List.isEmpty_iff,
      List.rdropWhile_eq_nil_iff, List.all_eq_true]
  rw [List.filter_map, hkept, List.map_map]
  rfl

theorem compactLines_eq_strip_lineByLine (t : Text) : compactLines t = strip (lineByLine t) := by
  have htrimmed : ∀ l ∈ (lines t).map (List.rdropWhile isInlineBlank), ch '\n' ∉ l := by
    intro l hl
    obtain ⟨l', hl', rfl⟩ := List.mem_map.mp hl
    exact newline_not_mem_rdropWhile (newline_not_mem_of_mem_lines hl')
  have hne : (lines t).map (List.rdropWhile isInlineBlank) ≠ [] := by
    simpa using lines_ne_nil t
  obtain ⟨b, hb, hjoin⟩ := joinBreaks_headed htrimmed
  have hkept : ∀ l ∈ ((lines t).map (List.rdropWhile isInlineBlank)).filter (fun l => !l.isEmpty),
      ch '\n' ∉ l := fun l hl => htrimmed l (List.mem_of_mem_filter hl)
  have hblank : ∀ c ∈ b, isBlank c = true := by
    rcases hb with rfl | rfl <;> simp [isBlank, inRanges, blankRanges]
  -- a line feed in front is stripped again, and gives every line one before it
  calc compactLines t
      = strip (shortenIndents (joinBreaks (ch '\n' :: dropTrailing t))) :=
        (strip_shortenIndents_joinBreaks_newline _).symm
    _ = strip (shortenIndents (headed
          (((lines t).map (List.rdropWhile isInlineBlank)).filter (fun l => !l.isEmpty)) ++ b)) := by
        rw [dropTrailing_eq_unlines, ← headed_eq_unlines hne, hjoin]
    _ = strip (headed (((lines t).filter (fun l => !l.all isInlineBlank)).map compactLine) ++ b) := by
        rw [shortenIndents_headed hkept hb, kept_map_shortenIndent]
    _ = strip (lineByLine t) := by
        rw [strip_append_blank hblank, strip_headed, lineByLine]

section Ink

theorem isBlank_of_mem_takeWhile {l : Text} : ∀ c ∈ l.takeWhile isInlineBlank, isBlank c = true :=
  fun _ hc => isBlank_of_isInlineBlank (List.mem_takeWhile_imp hc)

theorem strip_shortenIndent (l : Text) : strip (shortenIndent l) = strip l := by
  have hdrop : strip (l.dropWhile isInlineBlank) = strip l := by
    conv_rhs => rw [← List.takeWhile_append_dropWhile (p := isInlineBlank) (l := l),
      strip_blank_append isBlank_of_mem_takeWhile]
  rw [shortenIndent]
  split
  · rw [List.singleton_append, strip_blank_cons (by decide), hdrop]
  · exact hdrop

theorem strip_compactLine (l : Text) : strip (compactLine l) = strip l := by
  have htail : ∀ c ∈ l.rtakeWhile isInlineBlank, isBlank c = true :=
    fun _ hc => isBlank_of_isInlineBlank (List.mem_rtakeWhile_imp hc)
  rw [compactLine, strip_shortenIndent]
  conv_rhs => rw [← List.rdropWhile_append_rtakeWhile (p := isInlineBlank) (l := l),
    strip_append_blank htail]

theorem newline_not_mem_compactLine {l : Text} (hl : ch '\n' ∉ l) : ch '\n' ∉ compactLine l := by
  rw [compactLine, shortenIndent, List.mem_append]
  rintro (h | h)
  · split at h <;> simp at h
  · exact newline_not_mem_rdropWhile hl ((List.dropWhile_suffix _).subset h)

theorem ink_of_kept (ls : List Text) :
    (((ls.filter (fun l => !l.all isInlineBlank)).map compactLine).map strip).filter
        (fun l => !l.isEmpty) = (ls.map strip).filter (fun l => !l.isEmpty) := by
  induction ls with
  | nil => rfl
  | cons l ls ih =>
      cases hall : l.all isInlineBlank with
      | false =>
          rw [List.filter_cons_of_pos (by simp [hall]), List.map_cons, List.map_cons,
            strip_compactLine, List.map_cons, List.filter_cons, List.filter_cons, ih]
      | true =>
          have hstrip : strip l = [] := strip_of_blank
            (fun c hc => isBlank_of_isInlineBlank (List.all_eq_true.mp hall c hc))
          rw [List.filter_cons_of_neg (by simp [hall]), ih, List.map_cons, hstrip]
          rfl

theorem inkLines_lineByLine (t : Text) : inkLines (strip (lineByLine t)) = inkLines t := by
  have hlines : ∀ l ∈ ((lines t).filter (fun l => !l.all isInlineBlank)).map compactLine, ch '\n' ∉ l := by
    intro l hl
    obtain ⟨l', hl', rfl⟩ := List.mem_map.mp hl
    exact newline_not_mem_compactLine (newline_not_mem_of_mem_lines (List.mem_of_mem_filter hl'))
  rw [inkLines_strip, lineByLine, inkLines_unlines hlines, ink_of_kept]
  rfl

end Ink

end CodeCompaction.Minify
