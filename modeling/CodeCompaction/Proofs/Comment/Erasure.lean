import CodeCompaction.Comment.Removal
import CodeCompaction.Proofs.Comment.Blindness
import CodeCompaction.Proofs.Literal.Follow

namespace CodeCompaction.Comment

open CodeCompaction.Text CodeCompaction.Literal

theorem hides_letter : Hides (fun _ => [ch 'S']) := by
  intro i
  refine ⟨by simp, ?_⟩
  intro c hc
  obtain rfl := List.mem_singleton.mp hc
  decide

theorem erase_hidden {p : Pattern} (hp : Blind p) {w : Text} (hw : ∀ c ∈ w, c ∈ placeholderAlphabet)
    (t : Text) : erase p (w ++ t) = w ++ erase p t := by
  refine erase_append_of_none hp.flagless w t ?_
  rintro x y z rfl
  exact hp.start y _ (.inl (hw y (by simp)))

theorem exists_erase_fill {p : Pattern} (hp : Blind p) (σ : List Slot) :
    ∃ σ', Trims σ' σ ∧ ∀ e, Hides e → erase p (fill e σ) = fill e σ' := by
  -- a match removes the front of the row, so the induction is on its length
  induction hn : σ.length using Nat.strongRecOn generalizing σ with
  | ind n ih =>
      cases σ with
      | nil => exact ⟨[], Trims.refl [], fun e _ => erase_nil p⟩
      | cons s σ =>
          rcases hp.uniform (s :: σ) with hnone | ⟨σ₁, σ₂, hsplit, hsome⟩
          · obtain ⟨σ', htrim, herase⟩ := ih σ.length (by simp [← hn]) σ rfl
            refine ⟨s :: σ', htrim.cons s, fun e he => ?_⟩
            cases s with
            | char c =>
                have := hnone e he
                rw [fill_char] at this
                rw [fill_char, erase_cons_of_none hp.flagless this, herase e he, fill_char]
            | hole i => rw [fill_hole, erase_hidden hp (he i).2, herase e he, fill_hole]
          · have hmatch := hsome _ hides_letter
            have hne : σ₁ ≠ [] := by
              rintro rfl
              exact hp.positive _ hmatch
            have hhead : σ₁.head? ≠ some (.char '\n') := by
              intro hh
              obtain ⟨τ, rfl⟩ := List.head?_eq_some_iff.mp hh
              rw [hsplit, List.cons_append, fill_char, hp.start '\n' _ (.inr rfl)] at hmatch
              simp at hmatch
            have hlen : σ₂.length < n := by
              have hpos := List.length_pos_iff.mpr hne
              rw [← hn, hsplit, List.length_append]
              omega
            obtain ⟨σ', htrim, herase⟩ := ih σ₂.length hlen σ₂ rfl
            rw [hsplit]
            refine ⟨σ', htrim.drop hne hhead, fun e he => ?_⟩
            have hfill : fill e σ₁ ≠ [] := by
              intro hnil
              have := hsome e he
              rw [hnil] at this
              exact hp.positive _ this
            have := hsome e he
            rw [hsplit, fill_append] at this
            rw [fill_append, erase_append_of_match hp.flagless hfill this, herase e he]

theorem isVisibleGrammar_of_grammarOf? {ext : Text} {g : Grammar} (h : grammarOf? ext = some g)
    (hp : g.protects = true) : isVisibleGrammar g = true := by
  rw [grammarOf?, List.lookup_eq_some_iff] at h
  obtain ⟨l₁, l₂, hg, -⟩ := h
  have hmem : (extensionKey ext, g) ∈ grammars := by simp [hg]
  obtain ⟨f, hf, hfg⟩ := List.mem_flatMap.mp hmem
  obtain ⟨e, -, heq⟩ := List.mem_map.mp hfg
  obtain rfl : f.2 = g := congrArg Prod.snd heq
  exact isVisibleGrammar_families f hf hp

theorem exists_eraseBlocks_fill {g : Grammar} (hg : isVisibleGrammar g = true) (σ : List Slot) :
    ∃ σ', Trims σ' σ ∧ ∀ e, Hides e → eraseBlocks g (fill e σ) = fill e σ' := by
  simp only [isVisibleGrammar, Bool.and_eq_true] at hg
  unfold eraseBlocks
  cases hm : g.block? with
  | none => exact ⟨σ, Trims.refl σ, fun _ _ => rfl⟩
  | some m =>
      rw [hm] at hg
      exact exists_erase_fill (blind_block hg.2) σ

theorem exists_eraseLines_fill {g : Grammar} (hg : isVisibleGrammar g = true) (σ : List Slot) :
    ∃ σ', Trims σ' σ ∧ ∀ e, Hides e → eraseLines g (fill e σ) = fill e σ' := by
  simp only [isVisibleGrammar, Bool.and_eq_true] at hg
  unfold eraseLines
  cases hm : g.line? with
  | none => exact ⟨σ, Trims.refl σ, fun _ _ => rfl⟩
  | some m =>
      rw [hm] at hg
      exact exists_erase_fill (blind_line hg.1) σ

theorem exists_eraseComments_fill {g : Grammar} (hg : isVisibleGrammar g = true) (σ : List Slot) :
    ∃ σ', Trims σ' σ ∧ ∀ e, Hides e → eraseLines g (eraseBlocks g (fill e σ)) = fill e σ' := by
  obtain ⟨σ₁, h₁, hblocks⟩ := exists_eraseBlocks_fill hg σ
  obtain ⟨σ₂, h₂, hlines⟩ := exists_eraseLines_fill hg σ₁
  exact ⟨σ₂, h₂.trans h₁, fun e he => by rw [hblocks e he, hlines e he]⟩

end CodeCompaction.Comment
