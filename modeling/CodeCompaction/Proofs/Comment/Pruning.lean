import CodeCompaction.Proofs.Comment.DocRows

namespace CodeCompaction.Comment

open CodeCompaction.Text CodeCompaction.Literal

inductive Prunes (d : Nat → Bool) : Row → Row → Prop where
  | nil : Prunes d [] []
  | keep (x : Slot) {σ' σ : Row} : Prunes d σ' σ → Prunes d (x :: σ') (x :: σ)
  | drop (x : Slot) {σ' σ : Row} : Prunes d σ' σ → Prunes d σ' (x :: σ)
  | pass {j : Nat} {σ' σ : Row} (doc : d j = true) : Prunes d σ' σ →
      Prunes d (ofText "pass".toText ++ σ') (.hole j :: σ)

namespace Prunes

variable {d : Nat → Bool} {σ' σ τ' τ : Row}

theorem of_sublist (h : σ'.Sublist σ) : Prunes d σ' σ := by
  induction h with
  | slnil => exact .nil
  | cons x _ ih => exact .drop x ih
  | cons_cons x _ ih => exact .keep x ih

theorem refl (σ : Row) : Prunes d σ σ := .of_sublist (List.Sublist.refl σ)

theorem nil_left (σ : Row) : Prunes d [] σ := .of_sublist (List.nil_sublist σ)

theorem append (h : Prunes d σ' σ) (h' : Prunes d τ' τ) : Prunes d (σ' ++ τ') (σ ++ τ) := by
  induction h with
  | nil => exact h'
  | keep x _ ih => exact .keep x ih
  | drop x _ ih => exact .drop x ih
  | pass doc _ ih =>
      rw [List.append_assoc]
      exact .pass doc ih

theorem eq_nil (h : Prunes d σ' []) : σ' = [] := by
  cases h
  rfl

theorem hole_mem (h : Prunes d σ' σ) {j : Nat} (hj : Slot.hole j ∈ σ') : Slot.hole j ∈ σ := by
  induction h with
  | nil => exact hj
  | keep x _ ih =>
      rcases List.mem_cons.mp hj with rfl | hj
      · exact List.mem_cons_self ..
      · exact List.mem_cons_of_mem _ (ih hj)
  | drop x _ ih => exact List.mem_cons_of_mem _ (ih hj)
  | pass doc _ ih =>
      rcases List.mem_append.mp hj with hj | hj
      · exact absurd hj (hole_not_mem_ofText _ _)
      · exact List.mem_cons_of_mem _ (ih hj)

theorem char_mem (h : Prunes d σ' σ) {c : CodePoint} (hc : Slot.char c ∈ σ') :
    Slot.char c ∈ σ ∨ c ∈ "pass".toText := by
  induction h with
  | nil => exact .inl hc
  | keep x _ ih =>
      rcases List.mem_cons.mp hc with rfl | hc
      · exact .inl (List.mem_cons_self ..)
      · exact (ih hc).imp (List.mem_cons_of_mem _) id
  | drop x _ ih => exact (ih hc).imp (List.mem_cons_of_mem _) id
  | pass doc _ ih =>
      rcases List.mem_append.mp hc with hc | hc
      · exact .inr (char_mem_ofText.mp hc)
      · exact (ih hc).imp (List.mem_cons_of_mem _) id

theorem joinRows_tail {rs : List Row} (ρ : Row) (h : Prunes d σ' (joinRows rs)) :
    Prunes d σ' (joinRows (ρ :: rs)) := by
  by_cases hrs : rs = []
  · subst hrs
    rw [h.eq_nil]
    exact .nil_left _
  · rw [joinRows_cons_of_ne_nil ρ hrs]
    exact (nil_left ρ).append (.drop _ h)

theorem joinRows_cons {ρ' ρ : Row} {rs' rs : List Row} (hρ : Prunes d ρ' ρ)
    (h : Prunes d (joinRows rs') (joinRows rs)) (hnil : rs = [] → rs' = []) :
    Prunes d (joinRows (ρ' :: rs')) (joinRows (ρ :: rs)) := by
  by_cases hrs : rs = []
  · rw [hnil hrs, hrs, joinRows_singleton, joinRows_singleton]
    exact hρ
  · rw [joinRows_cons_of_ne_nil ρ hrs]
    by_cases hrs' : rs' = []
    · rw [hrs', joinRows_singleton, ← List.append_nil ρ']
      exact hρ.append (.nil_left _)
    · rw [joinRows_cons_of_ne_nil ρ' hrs']
      exact hρ.append (.keep _ h)

end Prunes

section Run

variable {g : Grammar} {s : Shielded} {r : Nat → Nat} {d : Nat → Bool}

theorem exists_holeLine_of_placeholderLine? {ρ : Row} (hs : Seats s r d ρ) {indent : Text} {i : Nat}
    (hline : placeholderLine? s.mark (fill (s.seat r) ρ) = some (indent, i))
    (hdoc : (s.spans[i]?).any isDoc = true) : ∃ j, HoleLine ρ indent j ∧ i = r j ∧ d j = true := by
  by_cases hhole : ∃ indent j, HoleLine ρ indent j
  · obtain ⟨indent', j, hhole⟩ := hhole
    have hj : Slot.hole j ∈ ρ := by
      obtain ⟨τ, rfl, -⟩ := hhole
      simp
    rw [placeholderLine?_of_holeLine hs.sentinel_mem hhole] at hline
    obtain ⟨rfl, rfl⟩ := Prod.mk.inj (Option.some.inj hline)
    exact ⟨j, hhole, rfl, by rw [← hs.isDoc_eq j hj, hdoc]⟩
  · rcases hs.absent with hempty | hfree
    · simp [hempty] at hdoc
    · rw [placeholderLine?_of_not_holeLine hs.sentinel_mem hfree hhole] at hline
      simp at hline

theorem exists_holeLine_of_replaced {ρ : Row} (hs : Seats s r d ρ) {depth : Nat}
    {previous following : Option Text} {indent : Text}
    (h : docVerdict s depth (fill (s.seat r) ρ) previous following = .replaced indent) :
    ∃ j, HoleLine ρ indent j ∧ d j = true := by
  rcases docVerdict_cases s depth (fill (s.seat r) ρ) previous following with
    hkept | ⟨-, indent', i, hline, hdoc, hverdict⟩
  · simp [hkept] at h
  · obtain ⟨j, hhole, -, hd⟩ := exists_holeLine_of_placeholderLine? hs hline hdoc
    rw [hverdict] at h
    split at h
    · obtain rfl := DocFate.replaced.inj h
      exact ⟨j, hhole, hd⟩
    · simp at h

theorem HoleLine.prunes {ρ : Row} {indent : Text} {j : Nat} (h : HoleLine ρ indent j)
    (hd : d j = true) : Prunes d (ofText (indent ++ "pass".toText)) ρ := by
  obtain ⟨τ, rfl, -⟩ := h
  have hpass : Prunes d (ofText "pass".toText ++ []) (.hole j :: ofText τ) :=
    .pass hd (.nil_left _)
  rw [List.append_nil] at hpass
  rw [ofText, List.map_append]
  exact (Prunes.refl _).append hpass

theorem docRun_fill_prunes (rs : List Row) (hs : ∀ ρ ∈ rs, Seats s r d ρ) (previous : Option Text)
    (depth : Nat) : ∃ rs', Prunes d (joinRows rs') (joinRows rs) ∧ (rs = [] → rs' = []) ∧
      docRun g s previous depth (rs.map (fill (s.seat r))) = rs'.map (fill (s.seat r)) := by
  induction rs generalizing previous depth with
  | nil => exact ⟨[], .nil, id, rfl⟩
  | cons ρ rs ih =>
      have hrest : ∀ ρ' ∈ rs, Seats s r d ρ' := fun ρ' hmem => hs ρ' (List.mem_cons_of_mem _ hmem)
      have hne : ρ :: rs = [] → ∀ rs' : List Row, rs' = [] := fun h => absurd h (List.cons_ne_nil _ _)
      rw [List.map_cons]
      cases hv : docVerdict s depth (fill (s.seat r) ρ) previous
          (firstCode? g (rs.map (fill (s.seat r)))) with
      | kept =>
          rw [docRun_cons_of_emitted (l := fill (s.seat r) ρ) (by rw [hv]; rfl)]
          obtain ⟨rs', hprunes, hnil, hrun⟩ := ih hrest (codeAfter g previous (fill (s.seat r) ρ))
            (bracketDepth depth (codePart g (fill (s.seat r) ρ)))
          exact ⟨ρ :: rs', (Prunes.refl ρ).joinRows_cons hprunes hnil, fun h => hne h _,
            by rw [hrun, List.map_cons]⟩
      | replaced indent =>
          obtain ⟨j, hhole, hd⟩ := exists_holeLine_of_replaced (hs ρ (List.mem_cons_self ..)) hv
          rw [docRun_cons_of_emitted (l := indent ++ "pass".toText) (by rw [hv]; rfl)]
          obtain ⟨rs', hprunes, hnil, hrun⟩ := ih hrest (codeAfter g previous (indent ++ "pass".toText))
            (bracketDepth depth (codePart g (fill (s.seat r) ρ)))
          exact ⟨ofText (indent ++ "pass".toText) :: rs', (hhole.prunes hd).joinRows_cons hprunes hnil,
            fun h => hne h _, by rw [hrun, List.map_cons, fill_ofText]⟩
      | dropped =>
          rw [docRun_cons_of_dropped (by rw [hv]; rfl)]
          obtain ⟨rs', hprunes, -, hrun⟩ :=
            ih hrest previous (bracketDepth depth (codePart g (fill (s.seat r) ρ)))
          exact ⟨rs', hprunes.joinRows_tail ρ, fun h => hne h _, hrun⟩

structure Deletes (g : Grammar) (s : Shielded) (d : Nat → Bool) (σ σ₁ σ₂ σ₃ : Row) : Prop where
  docs : Prunes d σ₁ σ
  blocks : σ₂.Sublist σ₁
  lines : σ₃.Sublist σ₂
  docs_eq : removeDocs g (some s) (fill (placeholder s.mark) σ) = fill (placeholder s.mark) σ₁
  blocks_eq : eraseBlocks g (fill (placeholder s.mark) σ₁) = fill (placeholder s.mark) σ₂
  lines_eq : eraseLines g (fill (placeholder s.mark) σ₂) = fill (placeholder s.mark) σ₃
  same : g.doc = false → σ₁ = σ

theorem exists_removeDocs_prunes {σ : Row} (hs : Seats s r d σ) : ∃ σ', Prunes d σ' σ ∧
    removeDocs g (some s) (fill (s.seat r) σ) = fill (s.seat r) σ' ∧ (g.doc = false → σ' = σ) := by
  cases hdoc : g.doc with
  | false => exact ⟨σ, .refl σ, removeDocs_of_not_doc hdoc _ _, fun _ => rfl⟩
  | true =>
      have hrows : ∀ ρ ∈ rows σ, Seats s r d ρ :=
        fun ρ hρ => hs.mono (fun x hx => exists_mem_of_mem_rows hρ hx)
      obtain ⟨rs', hprunes, -, hrun⟩ := docRun_fill_prunes (g := g) (rows σ) hrows none 0
      rw [joinRows_rows] at hprunes
      refine ⟨joinRows rs', hprunes, ?_, by simp⟩
      rw [removeDocs_eq_docRun hdoc, lines_fill hs.hides, hrun, fill_joinRows]

theorem exists_deletes {σ : Row} (hg : isVisibleGrammar g = true) (hs : Seats s id d σ) :
    ∃ σ₁ σ₂ σ₃, Deletes g s d σ σ₁ σ₂ σ₃ := by
  obtain ⟨σ₁, hprunes, hdocs, hsame⟩ := exists_removeDocs_prunes (g := g) hs
  obtain ⟨σ₂, hblock, hblocks⟩ := exists_eraseBlocks_fill hg σ₁
  obtain ⟨σ₃, hline, hlines⟩ := exists_eraseLines_fill hg σ₂
  exact ⟨σ₁, σ₂, σ₃, hprunes, hblock.sublist, hline.sublist, hdocs, hblocks _ hs.hides,
    hlines _ hs.hides, hsame⟩

end Run

namespace Deletes

variable {g : Grammar} {s : Shielded} {d : Nat → Bool} {σ σ₁ σ₂ σ₃ : Row}

theorem delete_eq (h : Deletes g s d σ σ₁ σ₂ σ₃) :
    delete g (some s) (fill (placeholder s.mark) σ) = fill (placeholder s.mark) σ₃ := by
  rw [delete, h.docs_eq, h.blocks_eq, h.lines_eq]

theorem hole_mem (h : Deletes g s d σ σ₁ σ₂ σ₃) {j : Nat} (hj : Slot.hole j ∈ σ₃) :
    Slot.hole j ∈ σ :=
  h.docs.hole_mem (h.blocks.subset (h.lines.subset hj))

theorem char_mem (h : Deletes g s d σ σ₁ σ₂ σ₃) {c : CodePoint} (hc : Slot.char c ∈ σ₃) :
    Slot.char c ∈ σ ∨ c ∈ "pass".toText :=
  h.docs.char_mem (h.blocks.subset (h.lines.subset hc))

end Deletes

end CodeCompaction.Comment
