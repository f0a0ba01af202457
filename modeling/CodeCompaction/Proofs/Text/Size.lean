import Mathlib
import CodeCompaction.Proofs.Text.Blanks
import CodeCompaction.Text.Rewrite

namespace CodeCompaction.Text

theorem byteLength_le_of_sublist {s t : Text} (h : s.Sublist t) : byteLength s ≤ byteLength t := by
  induction h with
  | slnil => exact Nat.le_refl _
  | cons c _ ih => exact ih.trans (by simp)
  | cons_cons c _ ih => simpa using ih

theorem length_le_byteLength (t : Text) : t.length ≤ byteLength t := by
  induction t with
  | nil => exact Nat.le_refl _
  | cons c t ih =>
      have := c.utf8Size_pos
      rw [List.length_cons, byteLength_cons]
      omega

def Substitution.Thrifty (m : Substitution) : Prop :=
  ∀ b t n out, m b t = some (n + 1, out) → byteLength out ≤ byteLength (t.take (n + 1))

theorem byteLength_rewriteFrom_le {m : Substitution} (hm : m.Thrifty) (b : Bool) (k : Nat) (t : Text) :
    byteLength (rewriteFrom m b k t) ≤ byteLength (t.drop k) := by
  induction t generalizing b k with
  | nil => rw [rewriteFrom_nil, List.drop_nil]
  | cons c cs ih =>
      cases k with
      | succ k => exact ih (c == '\n') k
      | zero =>
          have hkeep := Nat.add_le_add_left (ih (c == '\n') 0) c.utf8Size
          rw [rewriteFrom, List.drop_zero]
          cases hmatch : m b (c :: cs) with
          | none => simpa using hkeep
          | some p =>
              obtain ⟨n, out⟩ := p
              cases n with
              | zero => simpa using hkeep
              | succ n =>
                  have hout := hm b (c :: cs) n out hmatch
                  have hrest := ih (c == '\n') n
                  have hsplit := congrArg byteLength (List.take_append_drop n cs)
                  simp only [List.take_succ_cons, byteLength_cons, byteLength_append] at hout hsplit ⊢
                  omega

theorem byteLength_rewrite_le {m : Substitution} (hm : m.Thrifty) (t : Text) :
    byteLength (rewrite m t) ≤ byteLength t :=
  byteLength_rewriteFrom_le hm true 0 t

section Pieces

theorem byteLength_intercalate (c : CodePoint) (ls : List Text) :
    byteLength (List.intercalate [c] ls) = (ls.map (byteLength · + c.utf8Size)).sum - c.utf8Size := by
  induction ls with
  | nil => simp
  | cons l ls ih =>
      cases ls with
      | nil => simp
      | cons l' ls =>
          rw [List.intercalate_cons_of_ne_nil (List.cons_ne_nil _ _), byteLength_append, byteLength_append,
            ih]
          simp only [List.map_cons, List.sum_cons, byteLength_cons, byteLength_nil]
          omega

theorem sum_pieces_le (sep : CodePoint → Bool) (t : Text) :
    ((pieces sep t).map (byteLength · + 1)).sum ≤ byteLength t + 1 := by
  induction t with
  | nil => exact Nat.le_refl _
  | cons c cs ih =>
      have hc := c.utf8Size_pos
      rw [byteLength_cons, pieces]
      split
      · simp only [List.map_cons, List.sum_cons, byteLength_nil]
        omega
      · cases hcs : pieces sep cs with
        | nil => exact absurd hcs (pieces_ne_nil sep cs)
        | cons p ps =>
            simp only [hcs, List.map_cons, List.sum_cons, byteLength_cons] at ih ⊢
            omega

theorem byteLength_intercalate_pieces_le {c : CodePoint} (hc : c.utf8Size = 1) (sep : CodePoint → Bool) {t : Text}
    {ls : List Text} (h : (ls.map (byteLength · + 1)).sum ≤ ((pieces sep t).map (byteLength · + 1)).sum) :
    byteLength (List.intercalate [c] ls) ≤ byteLength t := by
  have ht := sum_pieces_le sep t
  rw [byteLength_intercalate, hc]
  omega

end Pieces

section Sublists

theorem dropTrailing_sublist (t : Text) : (dropTrailing t).Sublist t := by
  induction t with
  | nil => exact .slnil
  | cons c t ih =>
      rw [dropTrailing_cons]
      split
      · exact ih.cons c
      · exact ih.cons_cons c

theorem sublist_of_afterBlankLine {t r : Text} (h : afterBlankLine t = some r) : (ch '\n' :: r).Sublist t := by
  induction t with
  | nil => simp [afterBlankLine] at h
  | cons c cs ih =>
      simp only [afterBlankLine] at h
      split at h
      · rename_i hc
        obtain rfl : c = '\n' := by simpa using hc
        rw [Option.some.inj h]
      · split at h
        · exact (ih h).cons c
        · simp at h

theorem skipBlankLines_sublist (t : Text) :
    (List.replicate (skipBlankLines t).1 (ch '\n') ++ (skipBlankLines t).2).Sublist t := by
  fun_induction skipBlankLines t with
  | case1 t h => exact List.Sublist.refl t
  | case2 t r h skipped ih => exact (ih.cons_cons (ch '\n')).trans (sublist_of_afterBlankLine h)

theorem collapseBlankLines_sublist (t : Text) : (collapseBlankLines t).Sublist t := by
  fun_induction collapseBlankLines t with
  | case1 => exact .slnil
  | case2 c cs hc skipped hs ih =>
      obtain rfl : c = '\n' := by simpa using hc
      have hskip := skipBlankLines_sublist cs
      obtain ⟨n, hn⟩ : ∃ n, skipped.1 = n + 1 := ⟨skipped.1 - 1, by omega⟩
      have hone : (ch '\n' :: skipped.2).Sublist cs := by
        refine List.Sublist.trans ?_ hskip
        change (ch '\n' :: skipped.2).Sublist (List.replicate skipped.1 (ch '\n') ++ skipped.2)
        rw [hn, List.replicate_succ, List.cons_append]
        exact (List.sublist_append_right ..).cons_cons (ch '\n')
      exact ((ih.cons_cons (ch '\n')).trans hone).cons_cons (ch '\n')
  | case3 c cs hc skipped hs ih => exact ih.cons_cons c
  | case4 c cs hc ih => exact ih.cons_cons c

theorem strip_sublist (t : Text) : (strip t).Sublist t := by
  obtain ⟨w, w', -, -, ht⟩ := exists_strip t
  conv_rhs => rw [ht]
  exact (List.sublist_append_left ..).trans (List.sublist_append_right ..)

end Sublists

end CodeCompaction.Text
