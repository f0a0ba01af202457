import Mathlib.Data.List.Basic
import CodeCompaction.Text.Basic

namespace CodeCompaction.Text

theorem pieces_of_no_separator {sep : CodePoint → Bool} {a : Text} (h : ∀ c ∈ a, sep c = false) :
    pieces sep a = [a] := by
  induction a with
  | nil => rfl
  | cons c a ih =>
      have hc := h c (List.mem_cons_self ..)
      have ha := ih (fun d hd => h d (List.mem_cons_of_mem _ hd))
      simp [pieces, hc, ha]

theorem pieces_append_separator {sep : CodePoint → Bool} {c : CodePoint} (hc : sep c = true) (a t : Text) :
    pieces sep (a ++ c :: t) = pieces sep a ++ pieces sep t := by
  induction a with
  | nil => simp [pieces, hc]
  | cons d a ih =>
      rw [List.cons_append, pieces, pieces, ih]
      split
      · rw [List.cons_append]
      · cases hp : pieces sep a with
        | nil => exact absurd hp (pieces_ne_nil sep a)
        | cons p ps => rfl

theorem mem_of_mem_pieces {sep : CodePoint → Bool} {t l : Text} {c : CodePoint} (hl : l ∈ pieces sep t)
    (hc : c ∈ l) : c ∈ t := by
  induction t generalizing l with
  | nil => simp_all [pieces]
  | cons d t ih =>
      rw [pieces] at hl
      split at hl
      · rcases List.mem_cons.mp hl with rfl | hl
        · simp at hc
        · exact List.mem_cons_of_mem _ (ih hl hc)
      · cases hp : pieces sep t with
        | nil => exact absurd hp (pieces_ne_nil sep t)
        | cons p ps =>
            rw [hp] at hl ih
            rcases List.mem_cons.mp hl with rfl | hl
            · rcases List.mem_cons.mp hc with rfl | hc
              · exact List.mem_cons_self ..
              · exact List.mem_cons_of_mem _ (ih (List.mem_cons_self ..) hc)
            · exact List.mem_cons_of_mem _ (ih (List.mem_cons_of_mem _ hl) hc)

theorem lines_ne_nil (t : Text) : lines t ≠ [] := pieces_ne_nil _ t

theorem lines_of_no_newline {a : Text} (h : ch '\n' ∉ a) : lines a = [a] := by
  refine pieces_of_no_separator (fun c hc => ?_)
  rw [beq_eq_false_iff_ne]
  rintro rfl
  exact h hc

theorem lines_append_newline (a t : Text) : lines (a ++ ch '\n' :: t) = lines a ++ lines t :=
  pieces_append_separator (by decide) a t

theorem lines_append_newline_of_no_newline {a : Text} (h : ch '\n' ∉ a) (t : Text) :
    lines (a ++ ch '\n' :: t) = a :: lines t := by
  rw [lines_append_newline, lines_of_no_newline h, List.singleton_append]

theorem lines_cons_of_ne {c : CodePoint} (hc : c ≠ '\n') (t : Text) :
    lines (c :: t) = (lines t).modifyHead (c :: ·) := by
  cases h : lines t with
  | nil => exact absurd h (lines_ne_nil t)
  | cons l ls =>
      rw [lines] at h
      simp [lines, pieces, hc, h]

theorem lines_append_of_no_newline {w : Text} (hw : ch '\n' ∉ w) (t : Text) :
    lines (w ++ t) = (lines t).modifyHead (w ++ ·) := by
  induction w with
  | nil => cases h : lines t <;> simp [h]
  | cons c w ih =>
      have hc : c ≠ '\n' := fun heq => hw (heq ▸ List.mem_cons_self ..)
      have ht := ih (fun h => hw (List.mem_cons_of_mem _ h))
      rw [List.cons_append, lines_cons_of_ne hc, ht]
      cases lines t <;> simp

@[simp] theorem unlines_nil : unlines [] = [] := rfl

@[simp] theorem unlines_singleton (l : Text) : unlines [l] = l := by
  simp [unlines]

theorem unlines_cons_of_ne_nil (l : Text) {ls : List Text} (h : ls ≠ []) :
    unlines (l :: ls) = l ++ ch '\n' :: unlines ls := by
  rw [unlines, List.intercalate_cons_of_ne_nil h, List.append_assoc]
  rfl

theorem unlines_append {ls ms : List Text} (hl : ls ≠ []) (hm : ms ≠ []) :
    unlines (ls ++ ms) = unlines ls ++ ch '\n' :: unlines ms := by
  induction ls with
  | nil => exact absurd rfl hl
  | cons l ls ih =>
      cases ls with
      | nil => rw [List.singleton_append, unlines_cons_of_ne_nil l hm, unlines_singleton]
      | cons l' ls =>
          rw [List.cons_append, unlines_cons_of_ne_nil l (by simp), ih (by simp),
            unlines_cons_of_ne_nil l (by simp), List.append_assoc, List.cons_append]

theorem unlines_modifyHead (c : CodePoint) {ls : List Text} (h : ls ≠ []) :
    unlines (ls.modifyHead (c :: ·)) = c :: unlines ls := by
  cases ls with
  | nil => exact absurd rfl h
  | cons l ls =>
      cases ls with
      | nil => simp
      | cons l' ls => simp [unlines_cons_of_ne_nil]

theorem unlines_lines (t : Text) : unlines (lines t) = t := by
  induction t with
  | nil => rfl
  | cons c t ih =>
      have hne := lines_ne_nil t
      by_cases hc : c = '\n'
      · have hcut := lines_append_newline_of_no_newline (a := []) (by simp) t
        rw [List.nil_append] at hcut
        rw [hc, hcut, unlines_cons_of_ne_nil _ hne, ih, List.nil_append]
      · rw [lines_cons_of_ne hc, unlines_modifyHead _ hne, ih]

theorem newline_not_mem_of_mem_lines {t l : Text} (hl : l ∈ lines t) : ch '\n' ∉ l := by
  induction t generalizing l with
  | nil =>
      obtain rfl := List.mem_singleton.mp hl
      exact List.not_mem_nil
  | cons c t ih =>
      by_cases hc : c = '\n'
      · subst hc
        rw [← List.nil_append (ch '\n' :: t),
          lines_append_newline_of_no_newline (a := []) List.not_mem_nil] at hl
        rcases List.mem_cons.mp hl with rfl | hl
        · exact List.not_mem_nil
        · exact ih hl
      · rw [lines_cons_of_ne hc] at hl
        cases hls : lines t with
        | nil => exact absurd hls (lines_ne_nil t)
        | cons m ms =>
            rw [hls] at ih hl
            rcases List.mem_cons.mp hl with rfl | hl
            · intro hmem
              rcases List.mem_cons.mp hmem with heq | hmem
              · exact hc heq.symm
              · exact ih (List.mem_cons_self ..) hmem
            · exact ih (List.mem_cons_of_mem _ hl)

theorem lines_unlines {ls : List Text} (hne : ls ≠ []) (h : ∀ l ∈ ls, ch '\n' ∉ l) :
    lines (unlines ls) = ls := by
  induction ls with
  | nil => exact absurd rfl hne
  | cons l ls ih =>
      have hl := h l (List.mem_cons_self ..)
      cases ls with
      | nil => rw [unlines_singleton, lines_of_no_newline hl]
      | cons l' ls =>
          have hls := ih (List.cons_ne_nil _ _) (fun m hm => h m (List.mem_cons_of_mem _ hm))
          rw [unlines_cons_of_ne_nil l (List.cons_ne_nil _ _), lines_append_newline_of_no_newline hl, hls]

@[elab_as_elim]
theorem line_induction {P : Text → Prop} (last : ∀ l, ch '\n' ∉ l → P l)
    (step : ∀ l t, ch '\n' ∉ l → P t → P (l ++ ch '\n' :: t)) (t : Text) : P t := by
  rw [← unlines_lines t]
  have hlines : ∀ l ∈ lines t, ch '\n' ∉ l := fun l hl => newline_not_mem_of_mem_lines hl
  generalize lines t = ls at hlines
  induction ls with
  | nil => exact last [] List.not_mem_nil
  | cons l ls ih =>
      have hl := hlines l (List.mem_cons_self ..)
      cases ls with
      | nil =>
          rw [unlines_singleton]
          exact last l hl
      | cons l' ls =>
          rw [unlines_cons_of_ne_nil l (List.cons_ne_nil _ _)]
          exact step l _ hl (ih (fun m hm => hlines m (List.mem_cons_of_mem _ hm)))

def EndsLine (t : Text) : Prop := t = [] ∨ ∃ a, t = a ++ [ch '\n']

theorem EndsLine.newline_mem {t x z : Text} {c : CodePoint} (h : EndsLine t) (ht : t = x ++ c :: z) :
    ch '\n' ∈ c :: z := by
  rcases h with rfl | ⟨a, rfl⟩
  · simp at ht
  · have hlast := congrArg List.getLast? ht
    rw [List.getLast?_append_cons, List.getLast?_append_cons] at hlast
    exact List.mem_of_getLast? hlast.symm

theorem EndsLine.isPrefixOf_eq_false {t o x z : Text} {c : CodePoint} (h : EndsLine t) (ho : ch '\n' ∉ o)
    (hword : ¬ o <:+: t) (ht : t = x ++ c :: z) (u : Text) :
    o.isPrefixOf (c :: (z ++ u)) = false := by
  rw [Bool.eq_false_iff]
  intro hp
  have ho' : o <+: (c :: z) ++ u := List.isPrefixOf_iff_prefix.mp hp
  rcases List.prefix_or_prefix_of_prefix ho' (List.prefix_append ..) with hpre | hpre
  · exact hword (ht ▸ hpre.isInfix.trans (List.suffix_append ..).isInfix)
  · exact ho (hpre.subset (h.newline_mem ht))

theorem EndsLine.exists_lines {t : Text} (h : EndsLine t) : ∃ ls : List Text,
    (∀ l ∈ ls, ∀ c ∈ l, c ∈ t) ∧ (∀ u, lines (t ++ u) = ls ++ lines u) ∧
      ∀ ms, ms ≠ [] → unlines (ls ++ ms) = t ++ unlines ms := by
  rcases h with rfl | ⟨a, rfl⟩
  · exact ⟨[], by simp, fun u => rfl, fun ms _ => rfl⟩
  · refine ⟨lines a, ?_, ?_, ?_⟩
    · intro l hl c hc
      exact List.mem_append_left _ (mem_of_mem_pieces hl hc)
    · intro u
      rw [List.append_assoc, List.singleton_append, lines_append_newline]
    · intro ms hms
      rw [unlines_append (lines_ne_nil a) hms, unlines_lines, List.append_assoc, List.singleton_append]

end CodeCompaction.Text
