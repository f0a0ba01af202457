import Mathlib.Data.List.Basic
import CodeCompaction.Comment.Grammar
import CodeCompaction.Proofs.Text.Search
import CodeCompaction.Proofs.Text.Splitting

namespace CodeCompaction.Comment

open CodeCompaction.Text

structure ToLineEnd (p : Pattern) : Prop where
  append_newline : ∀ b a u, p b (a ++ ch '\n' :: u) = p b a
  takes_line : ∀ {b t n}, p b t = some n → n = lineLength t
  grows : ∀ {b t} u, p b t ≠ none → p b (t ++ u) ≠ none

section Line

variable {p : Pattern} {l l' t : Text}

namespace ToLineEnd

theorem cases_line (hp : ToLineEnd p) {c : CodePoint} (hl : ch '\n' ∉ c :: l) (b : Bool) :
    p b (c :: l) = none ∨ p b (c :: l) = some (l.length + 1) := by
  cases h : p b (c :: l) with
  | none => exact .inl rfl
  | some n =>
      rw [hp.takes_line h, lineLength_of_no_newline hl]
      exact .inr rfl

theorem rewriteFrom_newline (hp : ToLineEnd p) (b : Bool) (t : Text) :
    rewriteFrom p.erasing b 0 (ch '\n' :: t) = ch '\n' :: erase p t := by
  rw [rewriteFrom, Pattern.erasing]
  cases h : p b (ch '\n' :: t) with
  | none => rfl
  | some n =>
      obtain rfl : n = 0 := hp.takes_line h
      rfl

theorem rewriteFrom_skip_newline (hp : ToLineEnd p) (b : Bool) (l t : Text) :
    rewriteFrom p.erasing b l.length (l ++ ch '\n' :: t) = ch '\n' :: erase p t := by
  induction l generalizing b with
  | nil => exact hp.rewriteFrom_newline b t
  | cons c l ih => exact ih (c == '\n')

theorem rewriteFrom_skip_line (p : Pattern) (b : Bool) (l : Text) : rewriteFrom p.erasing b l.length l = [] := by
  simpa using rewriteFrom_erasing_sublist p b l.length l

theorem rewriteFrom_append_newline (hp : ToLineEnd p) (hl : ch '\n' ∉ l) (b : Bool) (t : Text) :
    rewriteFrom p.erasing b 0 (l ++ ch '\n' :: t) = rewriteFrom p.erasing b 0 l ++ ch '\n' :: erase p t := by
  induction l generalizing b with
  | nil => exact hp.rewriteFrom_newline b t
  | cons c l ih =>
      have hwhole : p b (c :: (l ++ ch '\n' :: t)) = p b (c :: l) := hp.append_newline b (c :: l) t
      rw [List.cons_append, rewriteFrom, rewriteFrom, Pattern.erasing, Pattern.erasing, hwhole]
      rcases hp.cases_line hl b with h | h <;> rw [h]
      · exact congrArg (c :: ·) (ih (List.not_mem_of_not_mem_cons hl) _)
      · exact (hp.rewriteFrom_skip_newline _ l t).trans
          (congrArg (· ++ ch '\n' :: erase p t) (rewriteFrom_skip_line p _ l).symm)

theorem rewriteFrom_cons_of_none {b : Bool} {c : CodePoint} {t : Text} (h : p b (c :: t) = none) :
    rewriteFrom p.erasing b 0 (c :: t) = c :: rewriteFrom p.erasing (c == '\n') 0 t := by
  rw [rewriteFrom, Pattern.erasing, h]
  rfl

theorem none_of_front (hp : ToLineEnd p) {b : Bool} (hpre : l' <+: l) (h : p b l = none) : p b l' = none := by
  obtain ⟨u, rfl⟩ := hpre
  by_contra hne
  exact hp.grows u hne h

theorem rewriteFrom_line (hp : ToLineEnd p) (hl : ch '\n' ∉ l) (b : Bool) :
    rewriteFrom p.erasing b 0 l <+: l ∧
      rewriteFrom p.erasing b 0 (rewriteFrom p.erasing b 0 l) = rewriteFrom p.erasing b 0 l := by
  -- a match takes all that is left, so what stays is a front, and a front has no mark where the line had none
  induction l generalizing b with
  | nil => exact ⟨List.prefix_refl [], rfl⟩
  | cons c l ih =>
      rcases hp.cases_line hl b with h | h
      · obtain ⟨hpre, hagain⟩ := ih (List.not_mem_of_not_mem_cons hl) (c == '\n')
        have hfront : c :: rewriteFrom p.erasing (c == '\n') 0 l <+: c :: l :=
          (List.prefix_cons_inj c).mpr hpre
        rw [rewriteFrom_cons_of_none h, rewriteFrom_cons_of_none (hp.none_of_front hfront h), hagain]
        exact ⟨hfront, rfl⟩
      · have hcut : rewriteFrom p.erasing b 0 (c :: l) = [] := by
          rw [rewriteFrom, Pattern.erasing, h]
          exact rewriteFrom_skip_line p _ l
        rw [hcut]
        exact ⟨List.nil_prefix, rfl⟩

theorem rewriteFrom_front (hp : ToLineEnd p) {b : Bool} (hl : ch '\n' ∉ l) (hpre : l' <+: l)
    (h : rewriteFrom p.erasing b 0 l = l) : rewriteFrom p.erasing b 0 l' = l' := by
  induction l generalizing b l' with
  | nil => rw [List.prefix_nil.mp hpre, rewriteFrom_nil]
  | cons c l ih =>
      cases l' with
      | nil => exact rewriteFrom_nil ..
      | cons d l' =>
          obtain ⟨rfl, hrest⟩ := List.cons_prefix_cons.mp hpre
          rcases hp.cases_line hl b with hnone | hsome
          · rw [rewriteFrom_cons_of_none hnone] at h
            rw [rewriteFrom_cons_of_none (hp.none_of_front hpre hnone),
              ih (List.not_mem_of_not_mem_cons hl) hrest (List.cons.inj h).2]
          · rw [rewriteFrom, Pattern.erasing, hsome] at h
            exact absurd (h.symm.trans (rewriteFrom_skip_line p _ l)) (List.cons_ne_nil _ _)

theorem lines_erase (hp : ToLineEnd p) (t : Text) : lines (erase p t) = (lines t).map (erase p) := by
  have hline {l : Text} (hl : ch '\n' ∉ l) : lines (erase p l) = [erase p l] :=
    lines_of_no_newline (fun hm => hl ((erase_sublist p l).subset hm))
  induction t using line_induction with
  | last l hl => rw [hline hl, lines_of_no_newline hl, List.map_singleton]
  | step l t hl ih =>
      have hsplit : erase p (l ++ ch '\n' :: t) = erase p l ++ ch '\n' :: erase p t :=
        hp.rewriteFrom_append_newline hl true t
      rw [hsplit, lines_append_newline, hline hl, ih, lines_append_newline_of_no_newline hl, List.map_cons,
        List.singleton_append]

theorem erase_eq_self_iff_lines (hp : ToLineEnd p) :
    erase p t = t ↔ ∀ l ∈ lines t, erase p l = l := by
  have hmap : (lines t).map (erase p) = lines t ↔ ∀ l ∈ lines t, erase p l = l := by
    conv_lhs => rhs; rw [← List.map_id (lines t)]
    exact List.map_inj_left
  rw [← hmap, ← hp.lines_erase]
  refine ⟨congrArg lines, fun h => ?_⟩
  rw [← unlines_lines (erase p t), h, unlines_lines]

theorem erase_erase (hp : ToLineEnd p) (t : Text) : erase p (erase p t) = erase p t := by
  rw [hp.erase_eq_self_iff_lines, hp.lines_erase]
  intro l' hl'
  obtain ⟨l, hl, rfl⟩ := List.mem_map.mp hl'
  exact (hp.rewriteFrom_line (newline_not_mem_of_mem_lines hl) true).2

end ToLineEnd

end Line

section Marks

def LineMark.openers : LineMark → List Text
  | .anywhere openers => openers
  | .lineStart openers => openers

def LineMark.stands : LineMark → Bool → Text → Bool
  | .anywhere openers, _, t => opens openers t
  | .lineStart openers, b, t => b && opens openers (t.dropWhile isInlineBlank)

variable {m : LineMark} {t : Text}

theorem LineMark.pattern_eq (m : LineMark) (b : Bool) (t : Text) :
    m.pattern b t = if m.stands b t then some (lineLength t) else none := by
  cases m <;> rfl

theorem isPrefixOf_append_newline {o : Text} (ho : ch '\n' ∉ o) (a u : Text) :
    o.isPrefixOf (a ++ ch '\n' :: u) = o.isPrefixOf a := by
  induction o generalizing a with
  | nil => rfl
  | cons d o ih =>
      cases a with
      | nil =>
          have hne : d ≠ '\n' := fun h => ho (h ▸ List.mem_cons_self)
          simp [List.isPrefixOf, hne]
      | cons c a =>
          rw [List.cons_append, List.isPrefixOf, List.isPrefixOf, ih (List.not_mem_of_not_mem_cons ho)]

theorem opens_append_newline {openers : List Text} (h : ∀ o ∈ openers, ch '\n' ∉ o) (a u : Text) :
    opens openers (a ++ ch '\n' :: u) = opens openers a := by
  rw [opens, opens, Bool.eq_iff_iff, List.any_eq_true, List.any_eq_true]
  refine exists_congr (fun o => and_congr_right (fun ho => ?_))
  rw [isPrefixOf_append_newline (h o ho)]

theorem opens_append {openers : List Text} (h : opens openers t = true) (u : Text) :
    opens openers (t ++ u) = true := by
  obtain ⟨o, ho, hpre⟩ := List.any_eq_true.mp h
  have hlong := (List.isPrefixOf_iff_prefix.mp hpre).trans (List.prefix_append t u)
  exact List.any_eq_true.mpr ⟨o, ho, List.isPrefixOf_iff_prefix.mpr hlong⟩

theorem dropWhile_append_newline (a u : Text) :
    (a ++ ch '\n' :: u).dropWhile isInlineBlank = a.dropWhile isInlineBlank ++ ch '\n' :: u := by
  rw [List.dropWhile_append]
  split
  · rename_i h
    rw [List.isEmpty_iff.mp h]
    rfl
  · rfl

theorem LineMark.stands_append_newline (h : ∀ o ∈ m.openers, ch '\n' ∉ o) (b : Bool) (a u : Text) :
    m.stands b (a ++ ch '\n' :: u) = m.stands b a := by
  cases m with
  | anywhere openers => exact opens_append_newline h a u
  | lineStart openers =>
      have hopens := opens_append_newline h (a.dropWhile isInlineBlank) u
      rw [← dropWhile_append_newline] at hopens
      exact congrArg (b && ·) hopens

theorem LineMark.stands_append {b : Bool} (h : m.stands b t = true) (u : Text) :
    m.stands b (t ++ u) = true := by
  cases m with
  | anywhere openers => exact opens_append h u
  | lineStart openers =>
      obtain ⟨hb, hopen⟩ := Bool.and_eq_true_iff.mp h
      rw [LineMark.stands, hb, Bool.true_and, List.dropWhile_append]
      split
      · rename_i hnil
        rw [List.isEmpty_iff.mp hnil] at hopen
        exact opens_append hopen _
      · exact opens_append hopen u

theorem toLineEnd_pattern (h : ∀ o ∈ m.openers, ch '\n' ∉ o) : ToLineEnd m.pattern where
  append_newline := by
    intro b a u
    rw [m.pattern_eq, m.pattern_eq, m.stands_append_newline h, lineLength_append_newline]
  takes_line := by
    intro b t n hn
    rw [m.pattern_eq] at hn
    split at hn
    · exact (Option.some.inj hn).symm
    · simp at hn
  grows := by
    intro b t u hn
    rw [m.pattern_eq] at hn ⊢
    split at hn
    · rename_i hstands
      simp [m.stands_append hstands u]
    · simp at hn

end Marks

end CodeCompaction.Comment
