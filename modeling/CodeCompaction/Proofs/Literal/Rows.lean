import CodeCompaction.Proofs.Literal.Scanning
import CodeCompaction.Proofs.Text.Splitting

namespace CodeCompaction.Literal

open CodeCompaction.Text

abbrev Row := List Slot

def rows : Row → List Row
  | [] => [[]]
  | .char c :: σ => if c == '\n' then [] :: rows σ else (rows σ).modifyHead (.char c :: ·)
  | .hole i :: σ => (rows σ).modifyHead (.hole i :: ·)

def joinRows (rs : List Row) : Row := List.intercalate [.char '\n'] rs

theorem rows_ne_nil (σ : Row) : rows σ ≠ [] := by
  induction σ with
  | nil => simp [rows]
  | cons s σ ih =>
      cases s with
      | hole i => simpa [rows, List.modifyHead_eq_nil_iff] using ih
      | char c =>
          simp only [rows]
          split
          · simp
          · simpa [List.modifyHead_eq_nil_iff] using ih

theorem joinRows_cons_of_ne_nil (ρ : Row) {rs : List Row} (h : rs ≠ []) :
    joinRows (ρ :: rs) = ρ ++ .char '\n' :: joinRows rs := by
  rw [joinRows, List.intercalate_cons_of_ne_nil h, List.append_assoc]
  rfl

@[simp] theorem joinRows_singleton (ρ : Row) : joinRows [ρ] = ρ := by
  simp [joinRows]

theorem joinRows_modifyHead (s : Slot) {rs : List Row} (h : rs ≠ []) :
    joinRows (rs.modifyHead (s :: ·)) = s :: joinRows rs := by
  cases rs with
  | nil => exact absurd rfl h
  | cons ρ rs =>
      cases rs with
      | nil => simp
      | cons ρ' rs => simp [joinRows_cons_of_ne_nil]

theorem joinRows_rows (σ : Row) : joinRows (rows σ) = σ := by
  induction σ with
  | nil => rfl
  | cons s σ ih =>
      have hne := rows_ne_nil σ
      cases s with
      | hole i => rw [rows, joinRows_modifyHead _ hne, ih]
      | char c =>
          by_cases hc : c = '\n'
          · simp [rows, hc, joinRows_cons_of_ne_nil _ hne, ih]
          · simp [rows, hc, joinRows_modifyHead _ hne, ih]

theorem fill_joinRows (e : Nat → Text) (rs : List Row) :
    fill e (joinRows rs) = unlines (rs.map (fill e)) := by
  induction rs with
  | nil => rfl
  | cons ρ rs ih =>
      cases rs with
      | nil => simp
      | cons ρ' rs =>
          rw [joinRows_cons_of_ne_nil _ (by simp), List.map_cons, unlines_cons_of_ne_nil _ (by simp),
            fill_append, fill_char, ih]

theorem newline_not_hidden : ch '\n' ∉ placeholderAlphabet := by decide

theorem newline_not_mem_of_hides {e : Nat → Text} (he : Hides e) (i : Nat) : ch '\n' ∉ e i :=
  fun h => newline_not_hidden ((he i).2 _ h)

theorem lines_fill {e : Nat → Text} (he : Hides e) (σ : Row) :
    lines (fill e σ) = (rows σ).map (fill e) := by
  have hhead (s : Slot) (rs : List Row) : (rs.modifyHead (s :: ·)).map (fill e) =
      (rs.map (fill e)).modifyHead (s.fill e ++ ·) := by
    cases rs <;> simp [fill]
  induction σ with
  | nil => rfl
  | cons s σ ih =>
      cases s with
      | hole i =>
          rw [fill_hole, lines_append_of_no_newline (newline_not_mem_of_hides he i), ih, rows, hhead]
          rfl
      | char c =>
          by_cases hc : c = '\n'
          · have hcut := lines_append_newline_of_no_newline (a := []) (by simp) (fill e σ)
            rw [List.nil_append, ih] at hcut
            simpa [hc, rows] using hcut
          · rw [fill_char, lines_cons_of_ne hc, ih, rows, if_neg (by simpa using hc), hhead]
            rfl

theorem exists_mem_of_mem_rows {s : Slot} {σ ρ : Row} (hρ : ρ ∈ rows σ) (hs : s ∈ ρ) : s ∈ σ := by
  have hjoin : ∀ rs : List Row, ρ ∈ rs → s ∈ joinRows rs := by
    intro rs hmem
    induction rs with
    | nil => simp at hmem
    | cons ρ' rs ih =>
        cases rs with
        | nil =>
            obtain rfl := List.mem_singleton.mp hmem
            simpa using hs
        | cons ρ'' rs =>
            rw [joinRows_cons_of_ne_nil _ (by simp), List.mem_append]
            rcases List.mem_cons.mp hmem with rfl | hmem
            · exact .inl hs
            · exact .inr (List.mem_cons_of_mem _ (ih hmem))
  exact joinRows_rows σ ▸ hjoin (rows σ) hρ

theorem holes_joinRows (rs : List Row) : holes (joinRows rs) = rs.flatMap holes := by
  induction rs with
  | nil => rfl
  | cons ρ rs ih =>
      cases rs with
      | nil => simp
      | cons ρ' rs =>
          rw [joinRows_cons_of_ne_nil _ (by simp), holes_append, holes_char, ih]
          rfl

theorem char_mem_joinRows {c : CodePoint} {rs : List Row} (h : Slot.char c ∈ joinRows rs) :
    c = '\n' ∨ ∃ ρ ∈ rs, Slot.char c ∈ ρ := by
  induction rs with
  | nil => simp [joinRows] at h
  | cons ρ rs ih =>
      cases rs with
      | nil => exact .inr ⟨ρ, List.mem_cons_self .., by simpa using h⟩
      | cons ρ' rs =>
          rw [joinRows_cons_of_ne_nil _ (by simp), List.mem_append, List.mem_cons] at h
          rcases h with h | h | h
          · exact .inr ⟨ρ, List.mem_cons_self .., h⟩
          · exact .inl (Slot.char.inj h)
          · rcases ih h with hc | ⟨ρ₀, hmem, hc⟩
            · exact .inl hc
            · exact .inr ⟨ρ₀, List.mem_cons_of_mem _ hmem, hc⟩

end CodeCompaction.Literal
