import CodeCompaction.Proofs.Text.Splitting

namespace CodeCompaction.Text

structure IsWord (w : Text) : Prop where
  ne_nil : w ≠ []
  visible : ∀ c ∈ w, isBlank c = false

def startsBlank (t : Text) : Bool := t.head?.all isBlank

/-- The maximal runs of visible characters in a text, in their order. -/
inductive Runs : Text → List Text → Prop where
  | blank {gap : Text} (hgap : ∀ c ∈ gap, isBlank c = true) : Runs gap []
  | word {gap w t : Text} {ws : List Text} (hgap : ∀ c ∈ gap, isBlank c = true) (hw : IsWord w)
      (ht : startsBlank t = true) : Runs t ws → Runs (gap ++ (w ++ t)) (w :: ws)

section Words

variable {t v w gap : Text} {ws : List Text} {c : CodePoint}

theorem isWord_singleton (hc : isBlank c = false) : IsWord [c] :=
  ⟨List.cons_ne_nil _ _, by simpa using hc⟩

theorem IsWord.append (hv : IsWord v) (hw : IsWord w) : IsWord (v ++ w) := by
  refine ⟨by simp [hv.ne_nil], fun c hc => ?_⟩
  exact (List.mem_append.mp hc).elim (hv.visible c) (hw.visible c)

theorem startsBlank_of_blank (h : ∀ c ∈ gap, isBlank c = true) : startsBlank gap = true := by
  cases gap with
  | nil => rfl
  | cons c gap => exact h c (List.mem_cons_self ..)

theorem IsWord.not_startsBlank_append (hw : IsWord w) (t : Text) : startsBlank (w ++ t) = false := by
  obtain ⟨c, w, rfl⟩ := List.exists_cons_of_ne_nil hw.ne_nil
  exact hw.visible c (List.mem_cons_self ..)

theorem lstrip_gap_append (hgap : ∀ c ∈ gap, isBlank c = true) (ht : startsBlank t = false) :
    lstrip (gap ++ t) = t := by
  cases t with
  | nil => simp [startsBlank] at ht
  | cons c t =>
      have hc : isBlank c = false := ht
      rw [lstrip, List.dropWhile_append_of_pos hgap, List.dropWhile_cons_of_neg (by simp [hc])]

theorem words_append_blank_cons (hc : isBlank c = true) (a t : Text) :
    words (a ++ c :: t) = words a ++ words t := by
  rw [words, pieces_append_separator hc, List.filter_append]
  rfl

theorem words_blank_cons (hc : isBlank c = true) (t : Text) : words (c :: t) = words t :=
  words_append_blank_cons hc [] t

theorem words_gap_append (h : ∀ c ∈ gap, isBlank c = true) (t : Text) : words (gap ++ t) = words t := by
  induction gap with
  | nil => rfl
  | cons c gap ih =>
      rw [List.cons_append, words_blank_cons (h c (List.mem_cons_self ..)),
        ih (fun d hd => h d (List.mem_cons_of_mem _ hd))]

theorem words_of_blank (h : ∀ c ∈ gap, isBlank c = true) : words gap = [] := by
  have hnil := words_gap_append h []
  rwa [List.append_nil] at hnil

theorem IsWord.words_append (hw : IsWord w) (ht : startsBlank t = true) :
    words (w ++ t) = w :: words t := by
  have hone : words w = [w] := by
    rw [words, pieces_of_no_separator hw.visible]
    simp [hw.ne_nil]
  cases t with
  | nil =>
      rw [List.append_nil, hone]
      rfl
  | cons c t =>
      have hc : isBlank c = true := ht
      rw [words_append_blank_cons hc, words_blank_cons hc, hone, List.singleton_append]

theorem Runs.words_eq (h : Runs t ws) : words t = ws := by
  induction h with
  | blank hgap => exact words_of_blank hgap
  | word hgap hw ht _ ih => rw [words_gap_append hgap, hw.words_append ht, ih]

theorem runs_nil : Runs [] [] := .blank (by simp)

theorem Runs.blank_cons (hc : isBlank c = true) (h : Runs t ws) : Runs (c :: t) ws := by
  cases h with
  | blank hgap => exact .blank (List.forall_mem_cons.mpr ⟨hc, hgap⟩)
  | word hgap hw ht h => exact .word (List.forall_mem_cons.mpr ⟨hc, hgap⟩) hw ht h

theorem Runs.word_append (hw : IsWord w) (ht : startsBlank t = true) (h : Runs t ws) :
    Runs (w ++ t) (w :: ws) := by
  rw [← List.nil_append (w ++ t)]
  exact .word (by simp) hw ht h

theorem Runs.close_append {u x : Text} {us : List Text} (hw : IsWord w) (hx : startsBlank x = false)
    (h : Runs x (u :: us)) : Runs (w ++ x) ((w ++ u) :: us) := by
  cases h with
  | @word gap _ t _ hgap hu ht h =>
      cases gap with
      | nil =>
          rw [List.nil_append, ← List.append_assoc]
          exact .word_append (hw.append hu) ht h
      | cons c gap =>
          have hc : startsBlank ((c :: gap) ++ (u ++ t)) = true := hgap c (List.mem_cons_self ..)
          rw [hc] at hx
          exact absurd hx (by decide)

theorem exists_runs (t : Text) : ∃ ws, Runs t ws := by
  induction t with
  | nil => exact ⟨[], runs_nil⟩
  | cons c t ih =>
      obtain ⟨ws, hws⟩ := ih
      cases hc : isBlank c with
      | true => exact ⟨ws, hws.blank_cons hc⟩
      | false =>
          have hone := isWord_singleton hc
          cases hws with
          | blank hgap => exact ⟨_, .word_append hone (startsBlank_of_blank hgap) (.blank hgap)⟩
          | @word gap w t ws hgap hw ht h =>
              cases gap with
              | nil => exact ⟨_, .word_append (hone.append hw) ht h⟩
              | cons d gap =>
                  have hd : isBlank d = true := hgap d (List.mem_cons_self ..)
                  exact ⟨_, .word_append hone hd (.word hgap hw ht h)⟩

theorem runs_words (t : Text) : Runs t (words t) := by
  obtain ⟨ws, hws⟩ := exists_runs t
  rwa [hws.words_eq]

theorem runs_iff : Runs t ws ↔ words t = ws :=
  ⟨Runs.words_eq, fun h => h ▸ runs_words t⟩

theorem Runs.isWord (h : Runs t ws) : ∀ w ∈ ws, IsWord w := by
  induction h with
  | blank => simp
  | word _ hw _ _ ih => exact List.forall_mem_cons.mpr ⟨hw, ih⟩

theorem Runs.filter_visible (h : Runs t ws) : t.filter (fun c => !isBlank c) = ws.flatten := by
  have hblank {gap : Text} (hgap : ∀ c ∈ gap, isBlank c = true) :
      gap.filter (fun c => !isBlank c) = [] :=
    List.filter_eq_nil_iff.mpr (fun c hc => by simp [hgap c hc])
  induction h with
  | blank hgap => exact hblank hgap
  | @word gap w t ws hgap hw _ _ ih =>
      have hkeep : w.filter (fun c => !isBlank c) = w :=
        List.filter_eq_self.mpr (fun c hc => by simp [hw.visible c hc])
      rw [List.filter_append, List.filter_append, hblank hgap, hkeep, ih, List.flatten_cons,
        List.nil_append]

end Words

section Unwords

variable {ws : List Text}

theorem unwords_cons_of_ne_nil (w : Text) (h : ws ≠ []) : unwords (w :: ws) = w ++ ch ' ' :: unwords ws := by
  rw [unwords, List.intercalate_cons_of_ne_nil h, List.append_assoc]
  rfl

theorem unwords_singleton (w : Text) : unwords [w] = w := by simp [unwords]

theorem head?_unwords_cons {w : Text} (hw : w ≠ []) (ws : List Text) : (unwords (w :: ws)).head? = w.head? := by
  by_cases hne : ws = []
  · rw [hne, unwords_singleton]
  · rw [unwords_cons_of_ne_nil w hne, List.head?_append_of_ne_nil _ hw]

theorem runs_unwords (h : ∀ w ∈ ws, IsWord w) : Runs (unwords ws) ws := by
  induction ws with
  | nil => exact runs_nil
  | cons w ws ih =>
      obtain ⟨hw, hws⟩ := List.forall_mem_cons.mp h
      by_cases hne : ws = []
      · subst hne
        have hlast := Runs.word_append hw rfl runs_nil
        rw [List.append_nil] at hlast
        rwa [unwords_singleton]
      · rw [unwords_cons_of_ne_nil w hne]
        exact .word_append hw rfl ((ih hws).blank_cons rfl)

end Unwords

end CodeCompaction.Text
