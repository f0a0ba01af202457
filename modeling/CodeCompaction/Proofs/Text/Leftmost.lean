import CodeCompaction.Proofs.Text.Search

namespace CodeCompaction.Text

/-- The matches that a search from left to right comes upon, from a position on: `m i j` is a match from `i`
to `j`. -/
inductive Leftmost (m : Nat → Nat → Prop) : Nat → List (Nat × Nat) → Prop where
  | stop {i : Nat} (none : ∀ k j, i ≤ k → ¬ m k j) : Leftmost m i []
  | step {i k j : Nat} {rs : List (Nat × Nat)} (le : i ≤ k) (first : ∀ k' j', i ≤ k' → k' < k → ¬ m k' j')
      (found : m k j) (rest : Leftmost m j rs) : Leftmost m i ((k, j) :: rs)

namespace Leftmost

variable {m : Nat → Nat → Prop} {i : Nat} {rs rs' : List (Nat × Nat)}

theorem unique (hm : ∀ {k j j'}, m k j → m k j' → j = j') (h : Leftmost m i rs) (h' : Leftmost m i rs') :
    rs = rs' := by
  induction h generalizing rs' with
  | stop none =>
      cases h' with
      | stop => rfl
      | step le _ found => exact absurd found (none _ _ le)
  | @step i k j rs le first found _ ih =>
      cases h' with
      | stop none => exact absurd found (none _ _ le)
      | @step _ k' j' rs' le' first' found' rest' =>
          obtain rfl : k = k' := by
            rcases Nat.lt_trichotomy k k' with hlt | heq | hgt
            · exact absurd found (first' _ _ le hlt)
            · exact heq
            · exact absurd found' (first _ _ le' hgt)
          obtain rfl := hm found found'
          rw [ih rest']

theorem skip (hi : ∀ j, ¬ m i j) (h : Leftmost m (i + 1) rs) : Leftmost m i rs := by
  have hbefore {k j : Nat} (hk : i ≤ k) (hnone : i + 1 ≤ k → ¬ m k j) : ¬ m k j := by
    rcases Nat.eq_or_lt_of_le hk with rfl | hlt
    · exact hi j
    · exact hnone hlt
  cases h with
  | stop none => exact .stop (fun k j hk => hbefore hk (none k j))
  | step le first found rest =>
      refine .step (by omega) (fun k' j' hk' hlt => hbefore hk' ?_) found rest
      exact fun hle => first k' j' hle hlt

theorem congr {m' : Nat → Nat → Prop} (hm : ∀ k j, m k j ↔ m' k j) (h : Leftmost m i rs) :
    Leftmost m' i rs := by
  obtain rfl : m = m' := funext fun k => funext fun j => propext (hm k j)
  exact h

end Leftmost

def MatchAt (p : Pattern) (t : Text) (i j : Nat) : Prop := i < j ∧ p true (t.drop i) = some (j - i)

theorem leftmost_spansFrom {p : Pattern} (hp : p.Flagless) (hnil : p true [] = none) {t : Text}
    (b : Bool) (k pos : Nat) (u : Text) (hu : t.drop pos = u) :
    Leftmost (MatchAt p t) (pos + k) (spansFrom p b k pos u) := by
  induction u generalizing b k pos with
  | nil =>
      have hstop : Leftmost (MatchAt p t) (pos + k) [] := by
        refine .stop (fun i j hi hm => ?_)
        have hend : t.drop i = [] :=
          List.drop_eq_nil_iff.mpr (Nat.le_trans (List.drop_eq_nil_iff.mp hu) (by omega))
        rw [MatchAt, hend, hnil] at hm
        simp at hm
      cases k <;> exact hstop
  | cons c u ih =>
      have hnext : t.drop (pos + 1) = u := by rw [← List.drop_drop, hu]; rfl
      cases k with
      | succ k =>
          have := ih (c == '\n') k (pos + 1) hnext
          rwa [Nat.add_assoc, Nat.add_comm 1] at this
      | zero =>
          have hpass (hnone : ∀ n, p true (c :: u) ≠ some (n + 1)) :
              Leftmost (MatchAt p t) pos (spansFrom p (c == '\n') 0 (pos + 1) u) := by
            refine (ih (c == '\n') 0 (pos + 1) hnext).skip (fun j hm => ?_)
            obtain ⟨hlt, hm⟩ := hm
            rw [hu] at hm
            exact hnone (j - pos - 1) (hm.trans (congrArg some (by omega)))
          simp only [spansFrom, hp b (c :: u), Nat.add_zero]
          cases hmatch : p true (c :: u) with
          | none => exact hpass (by simp [hmatch])
          | some n =>
              cases n with
              | zero => exact hpass (by simp [hmatch])
              | succ n =>
                  have hfound : MatchAt p t pos (pos + (n + 1)) := by
                    refine ⟨by omega, ?_⟩
                    rw [hu, hmatch, Nat.add_sub_cancel_left]
                  refine .step (Nat.le_refl _) (fun _ _ hle hlt => by omega) hfound ?_
                  have := ih (c == '\n') n (pos + 1) hnext
                  rwa [Nat.add_assoc, Nat.add_comm 1] at this

theorem leftmost_spans {p : Pattern} (hp : p.Flagless) (hnil : p true [] = none) (t : Text) :
    Leftmost (MatchAt p t) 0 (spans p t) :=
  leftmost_spansFrom hp hnil true 0 0 t rfl

end CodeCompaction.Text
