import CodeCompaction.Text.Rewrite

namespace CodeCompaction.Text

variable {m : Substitution} {p : Pattern}

def Substitution.Flagless (m : Substitution) : Prop := ∀ b t, m b t = m true t

def Pattern.Flagless (p : Pattern) : Prop := ∀ b t, p b t = p true t

theorem Pattern.Flagless.erasing (h : p.Flagless) : p.erasing.Flagless := by
  intro b t
  simp only [Pattern.erasing, h b t]

theorem rewriteFrom_flag (h : m.Flagless) (b : Bool) (k : Nat) (t : Text) :
    rewriteFrom m b k t = rewriteFrom m true k t := by
  cases t with
  | nil => rw [rewriteFrom_nil, rewriteFrom_nil]
  | cons c cs =>
      cases k with
      | zero => simp only [rewriteFrom, h b (c :: cs)]
      | succ k => rfl

theorem rewriteFrom_skip (h : m.Flagless) (b : Bool) (a t : Text) :
    rewriteFrom m b a.length (a ++ t) = rewrite m t := by
  induction a generalizing b with
  | nil => exact rewriteFrom_flag h b 0 t
  | cons c a ih => exact ih (c == '\n')

theorem rewrite_cons_of_none (h : m.Flagless) {c : CodePoint} {t : Text} (hm : m true (c :: t) = none) :
    rewrite m (c :: t) = c :: rewrite m t := by
  rw [rewrite, rewriteFrom, hm]
  exact congrArg (c :: ·) (rewriteFrom_flag h (c == '\n') 0 t)

theorem rewrite_append_of_match (h : m.Flagless) {a t out : Text} (ha : a ≠ [])
    (hm : m true (a ++ t) = some (a.length, out)) : rewrite m (a ++ t) = out ++ rewrite m t := by
  cases a with
  | nil => exact absurd rfl ha
  | cons c a =>
      rw [List.cons_append, List.length_cons] at hm
      rw [List.cons_append, rewrite, rewriteFrom, hm]
      exact congrArg (out ++ ·) (rewriteFrom_skip h (c == '\n') a t)

theorem erase_nil (p : Pattern) : erase p [] = [] := rfl

theorem erase_cons_of_none (h : p.Flagless) {c : CodePoint} {t : Text} (hp : p true (c :: t) = none) :
    erase p (c :: t) = c :: erase p t :=
  rewrite_cons_of_none h.erasing (by simp only [Pattern.erasing, hp, Option.map_none])

theorem erase_append_of_match (h : p.Flagless) {a t : Text} (ha : a ≠ [])
    (hp : p true (a ++ t) = some a.length) : erase p (a ++ t) = erase p t := by
  have hm : p.erasing true (a ++ t) = some (a.length, []) := by
    simp only [Pattern.erasing, hp, Option.map_some]
  exact rewrite_append_of_match h.erasing ha hm

theorem erase_append_of_none (h : p.Flagless) (a t : Text)
    (hp : ∀ x y z, a = x ++ y :: z → p true (y :: (z ++ t)) = none) :
    erase p (a ++ t) = a ++ erase p t := by
  induction a with
  | nil => rfl
  | cons c a ih =>
      rw [List.cons_append, erase_cons_of_none h (hp [] c a rfl), ih, List.cons_append]
      intro x y z hxyz
      exact hp (c :: x) y z (by rw [hxyz, List.cons_append])

theorem rewriteFrom_erasing_sublist (p : Pattern) (b : Bool) (k : Nat) (t : Text) :
    (rewriteFrom p.erasing b k t).Sublist (t.drop k) := by
  induction t generalizing b k with
  | nil => cases k <;> exact .slnil
  | cons c cs ih =>
      cases k with
      | succ k => exact ih (c == '\n') k
      | zero =>
          have hkeep := (ih (c == '\n') 0).cons_cons c
          simp only [rewriteFrom, Pattern.erasing]
          cases p b (c :: cs) with
          | none => exact hkeep
          | some n =>
              cases n with
              | zero => exact hkeep
              | succ n => exact (ih (c == '\n') n).trans ((List.drop_sublist n cs).cons c)

theorem erase_sublist (p : Pattern) (t : Text) : (erase p t).Sublist t :=
  rewriteFrom_erasing_sublist p true 0 t

theorem rewriteFrom_eq_self_iff (p : Pattern) (b : Bool) (pos : Nat) (t : Text) :
    rewriteFrom p.erasing b 0 t = t ↔ spansFrom p b 0 pos t = [] := by
  induction t generalizing b pos with
  | nil => exact iff_of_true rfl rfl
  | cons c cs ih =>
      have hkeep := (List.cons_inj_right c).trans (ih (c == '\n') (pos + 1))
      simp only [rewriteFrom, Pattern.erasing, spansFrom]
      cases p b (c :: cs) with
      | none => exact hkeep
      | some n =>
          cases n with
          | zero => exact hkeep
          | succ n =>
              have hlen : (rewriteFrom p.erasing (c == '\n') n cs).length ≤ cs.length :=
                ((rewriteFrom_erasing_sublist p _ n cs).trans (List.drop_sublist n cs)).length_le
              refine iff_of_false (fun heq => ?_) (List.cons_ne_nil _ _)
              have hshort := congrArg List.length heq
              simp only [Option.map_some, List.nil_append, List.length_cons] at hshort
              omega

theorem erase_eq_self_iff (p : Pattern) (t : Text) : erase p t = t ↔ spans p t = [] :=
  rewriteFrom_eq_self_iff p true 0 t

def Uncovered (p : Pattern) (t : Text) (n : Nat) : Prop := ∀ r ∈ spans p t, r.2 ≤ n ∨ n < r.1

theorem spansFrom_flag (h : p.Flagless) (b : Bool) (k pos : Nat) (t : Text) :
    spansFrom p b k pos t = spansFrom p true k pos t := by
  cases t with
  | nil => cases k <;> rfl
  | cons c cs =>
      cases k with
      | zero => simp only [spansFrom, h b (c :: cs)]
      | succ k => rfl

theorem spansFrom_shift (p : Pattern) (b : Bool) (k pos n : Nat) (t : Text) :
    spansFrom p b k (pos + n) t = (spansFrom p b k pos t).map (fun r => (r.1 + n, r.2 + n)) := by
  induction t generalizing b k pos with
  | nil => cases k <;> rfl
  | cons c cs ih =>
      have hcs (b : Bool) (k : Nat) := ih b k (pos + 1)
      rw [Nat.add_right_comm] at hcs
      cases k with
      | succ k => exact hcs _ k
      | zero =>
          simp only [spansFrom]
          cases p b (c :: cs) with
          | none => exact hcs _ 0
          | some j =>
              cases j with
              | zero => exact hcs _ 0
              | succ j =>
                  simp only [hcs, List.map_cons, Nat.add_right_comm pos n (j + 1)]

theorem spansFrom_append_of_none (h : p.Flagless) (pos : Nat) (a t : Text)
    (hp : ∀ x y z, a = x ++ y :: z → p true (y :: (z ++ t)) = none) :
    spansFrom p true 0 pos (a ++ t) = spansFrom p true 0 (pos + a.length) t := by
  induction a generalizing pos with
  | nil => rfl
  | cons c a ih =>
      rw [List.cons_append, spansFrom, hp [] c a rfl]
      simp only
      rw [spansFrom_flag h, ih, List.length_cons, Nat.add_assoc, Nat.add_comm 1]
      intro x y z hxyz
      exact hp (c :: x) y z (by rw [hxyz, List.cons_append])

theorem Uncovered.of_append (h : p.Flagless) {a t : Text} {n : Nat}
    (hp : ∀ x y z, a = x ++ y :: z → p true (y :: (z ++ t)) = none)
    (hu : Uncovered p (a ++ t) (a.length + n)) : Uncovered p t n := by
  intro r hr
  have hspans : spans p (a ++ t) = (spans p t).map (fun r => (r.1 + a.length, r.2 + a.length)) := by
    rw [spans, spansFrom_append_of_none h 0 a t hp, spansFrom_shift]
    rfl
  have := hu (r.1 + a.length, r.2 + a.length) (by
    rw [hspans]
    exact List.mem_map.mpr ⟨r, hr, rfl⟩)
  simp only at this
  omega

theorem Uncovered.tail (h : p.Flagless) {c : CodePoint} {t : Text} {n : Nat}
    (hp : p true (c :: t) = none) (hu : Uncovered p (c :: t) (n + 1)) : Uncovered p t n := by
  refine Uncovered.of_append (a := [c]) h ?_ (by rwa [List.length_singleton, Nat.add_comm])
  intro x y z hxyz
  cases x with
  | nil =>
      obtain ⟨rfl, rfl⟩ := List.cons.inj hxyz
      exact hp
  | cons d x => simp at hxyz

theorem Uncovered.none_at_head {c : CodePoint} {t : Text} (hpos : p true (c :: t) ≠ some 0)
    (hu : Uncovered p (c :: t) 0) : p true (c :: t) = none := by
  cases hp : p true (c :: t) with
  | none => rfl
  | some n =>
      cases n with
      | zero => exact absurd hp hpos
      | succ n =>
          have := hu (0, 0 + (n + 1)) (by simp [spans, spansFrom, hp])
          simp at this

theorem rewriteFrom_seam {a t : Text} {b : Bool} {k pos : Nat} (hk : k ≤ a.length)
    (hr : ∀ r ∈ spansFrom p b k pos (a ++ ch '\n' :: t), r.2 ≤ pos + a.length ∨ pos + a.length < r.1) :
    ∃ a', a'.Sublist a ∧
      rewriteFrom p.erasing b k (a ++ ch '\n' :: t) = a' ++ ch '\n' :: erase p t := by
  induction a generalizing b k pos with
  | nil =>
      obtain rfl : k = 0 := Nat.le_zero.mp hk
      refine ⟨[], .slnil, ?_⟩
      simp only [List.nil_append, rewriteFrom, Pattern.erasing, spansFrom] at hr ⊢
      cases hp : p b (ch '\n' :: t) with
      | none => rfl
      | some n =>
          cases n with
          | zero => rfl
          | succ n =>
              rw [hp] at hr
              have := hr _ (List.mem_cons_self ..)
              simp only [List.length_nil] at this
              omega
  | cons c a ih =>
      have step {k' : Nat} (hk' : k' ≤ a.length)
          (hr' : ∀ r ∈ spansFrom p (c == ch '\n') k' (pos + 1) (a ++ ch '\n' :: t),
            r.2 ≤ pos + (a.length + 1) ∨ pos + (a.length + 1) < r.1) := by
        have hshift : ∀ r ∈ spansFrom p (c == ch '\n') k' (pos + 1) (a ++ ch '\n' :: t),
            r.2 ≤ pos + 1 + a.length ∨ pos + 1 + a.length < r.1 := by
          intro r hmem
          rcases hr' r hmem with h | h <;> omega
        exact ih hk' hshift
      simp only [List.length_cons] at hk hr
      cases k with
      | succ k =>
          obtain ⟨a', hsub, heq⟩ := step (Nat.le_of_succ_le_succ hk) hr
          exact ⟨a', hsub.cons c, heq⟩
      | zero =>
          simp only [List.cons_append, rewriteFrom, Pattern.erasing, spansFrom] at hr ⊢
          cases hp : p b (c :: (a ++ ch '\n' :: t)) with
          | none =>
              rw [hp] at hr
              obtain ⟨a', hsub, heq⟩ := step (Nat.zero_le _) hr
              exact ⟨c :: a', hsub.cons_cons c, congrArg (c :: ·) heq⟩
          | some n =>
              rw [hp] at hr
              cases n with
              | zero =>
                  obtain ⟨a', hsub, heq⟩ := step (Nat.zero_le _) hr
                  exact ⟨c :: a', hsub.cons_cons c, congrArg (c :: ·) heq⟩
              | succ n =>
                  -- the match ends before the line feed, so what is left to skip fits into `a`
                  have hn : n ≤ a.length := by
                    have := hr _ (List.mem_cons_self ..)
                    simp only at this
                    omega
                  obtain ⟨a', hsub, heq⟩ := step hn (fun r hmem => hr r (List.mem_cons_of_mem _ hmem))
                  exact ⟨a', hsub.cons c, heq⟩

theorem erase_seam {a t : Text} (h : Uncovered p (a ++ ch '\n' :: t) a.length) :
    ∃ a', a'.Sublist a ∧ erase p (a ++ ch '\n' :: t) = a' ++ ch '\n' :: erase p t := by
  have hr : ∀ r ∈ spansFrom p true 0 0 (a ++ ch '\n' :: t),
      r.2 ≤ 0 + a.length ∨ 0 + a.length < r.1 := by
    intro r hmem
    rw [Nat.zero_add]
    exact h r hmem
  exact rewriteFrom_seam (Nat.zero_le _) hr

end CodeCompaction.Text
