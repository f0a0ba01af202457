import CodeCompaction.Proofs.Literal.Placeholder

namespace CodeCompaction.Literal

open CodeCompaction.Text

def Slot.test (q : CodePoint → Bool) (v : Bool) : Slot → Bool
  | .char c => q c
  | .hole _ => v

@[simp] theorem Slot.test_char (q : CodePoint → Bool) (v : Bool) (c : CodePoint) :
    (Slot.char c).test q v = q c := rfl

@[simp] theorem Slot.test_hole (q : CodePoint → Bool) (v : Bool) (i : Nat) :
    (Slot.hole i).test q v = v := rfl

theorem Slot.char_beq_char (c d : CodePoint) : (Slot.char c == Slot.char d) = (c == d) := by
  by_cases h : c = d <;> simp [h]

section Scanning

variable {q : CodePoint → Bool} {v : Bool} {e : Nat → Text}

theorem takeWhile_hidden {w : Text} (hq : ∀ c ∈ placeholderAlphabet, q c = true)
    (hw : ∀ c ∈ w, c ∈ placeholderAlphabet) (t : Text) :
    (w ++ t).takeWhile q = w ++ t.takeWhile q :=
  List.takeWhile_append_of_pos (fun c hc => hq c (hw c hc))

theorem dropWhile_hidden {w : Text} (hq : ∀ c ∈ placeholderAlphabet, q c = true)
    (hw : ∀ c ∈ w, c ∈ placeholderAlphabet) (t : Text) :
    (w ++ t).dropWhile q = t.dropWhile q :=
  List.dropWhile_append_of_pos (fun c hc => hq c (hw c hc))

theorem exists_cons_of_hides (he : Hides e) (i : Nat) :
    ∃ c w, e i = c :: w ∧ c ∈ placeholderAlphabet := by
  obtain ⟨hne, hmem⟩ := he i
  obtain ⟨c, w, hcw⟩ := List.exists_cons_of_ne_nil hne
  exact ⟨c, w, hcw, hmem c (hcw ▸ List.mem_cons_self ..)⟩

theorem takeWhile_fill (hq : ∀ c ∈ placeholderAlphabet, q c = v) (he : Hides e) (σ : List Slot) :
    (fill e σ).takeWhile q = fill e (σ.takeWhile (Slot.test q v)) := by
  induction σ with
  | nil => rfl
  | cons s σ ih =>
      cases s with
      | char c => cases hc : q c <;> simp [hc, ih]
      | hole i =>
          cases v with
          | true =>
              rw [fill_hole, takeWhile_hidden hq (he i).2, ih, List.takeWhile_cons_of_pos rfl, fill_hole]
          | false =>
              obtain ⟨c, w, hcw, hmem⟩ := exists_cons_of_hides he i
              simp [hcw, hq c hmem]

theorem dropWhile_fill (hq : ∀ c ∈ placeholderAlphabet, q c = v) (he : Hides e) (σ : List Slot) :
    (fill e σ).dropWhile q = fill e (σ.dropWhile (Slot.test q v)) := by
  induction σ with
  | nil => rfl
  | cons s σ ih =>
      cases s with
      | char c => cases hc : q c <;> simp [hc, ih]
      | hole i =>
          cases v with
          | true => rw [fill_hole, dropWhile_hidden hq (he i).2, ih, List.dropWhile_cons_of_pos rfl]
          | false =>
              obtain ⟨c, w, hcw, hmem⟩ := exists_cons_of_hides he i
              simp [hcw, hq c hmem]

theorem exists_text_takeWhile (q : CodePoint → Bool) (σ : List Slot) :
    ∃ t : Text, σ.takeWhile (Slot.test q false) = ofText t ∧ ∀ c ∈ t, q c = true := by
  induction σ with
  | nil => exact ⟨[], rfl, by simp⟩
  | cons s σ ih =>
      obtain ⟨t, ht, hall⟩ := ih
      cases s with
      | hole i => exact ⟨[], by simp [ofText], by simp⟩
      | char c =>
          cases hc : q c with
          | false => exact ⟨[], by simp [hc, ofText], by simp⟩
          | true =>
              refine ⟨c :: t, by simp [hc, ht, ofText], ?_⟩
              intro d hd
              rcases List.mem_cons.mp hd with rfl | hd
              · exact hc
              · exact hall d hd

theorem exists_ofText_of_all {σ : List Slot} (h : σ.all (Slot.test q false) = true) :
    ∃ t : Text, σ = ofText t ∧ t.all q = true := by
  induction σ with
  | nil => exact ⟨[], rfl, rfl⟩
  | cons s σ ih =>
      rw [List.all_cons, Bool.and_eq_true] at h
      obtain ⟨t, rfl, ht⟩ := ih h.2
      cases s with
      | hole i => simp at h
      | char c => exact ⟨c :: t, rfl, by rw [List.all_cons, ht, Bool.and_true]; exact h.1⟩

theorem all_fill (hq : ∀ c ∈ placeholderAlphabet, q c = v) (he : Hides e) (σ : List Slot) :
    (fill e σ).all q = σ.all (Slot.test q v) := by
  induction σ with
  | nil => rfl
  | cons s σ ih =>
      cases s with
      | char c => simp [ih]
      | hole i =>
          have hall : (e i).all q = v := by
            obtain ⟨c, w, hcw, hmem⟩ := exists_cons_of_hides he i
            have hw : ∀ d ∈ w, q d = v :=
              fun d hd => hq d ((he i).2 d (hcw ▸ List.mem_cons_of_mem _ hd))
            rw [hcw, List.all_cons, hq c hmem]
            cases v with
            | false => rfl
            | true => simpa using hw
          rw [fill_hole, List.all_append, ih, hall, List.all_cons, Slot.test_hole]

theorem head?_any_fill (hq : ∀ c ∈ placeholderAlphabet, q c = v) (he : Hides e) (σ : List Slot) :
    (fill e σ).head?.any q = σ.head?.any (Slot.test q v) := by
  cases σ with
  | nil => rfl
  | cons s σ =>
      cases s with
      | char c => rfl
      | hole i =>
          obtain ⟨c, w, hcw, hmem⟩ := exists_cons_of_hides he i
          simp [hcw, hq c hmem]

theorem reverse_fill (e : Nat → Text) (σ : List Slot) :
    (fill e σ).reverse = fill (fun i => (e i).reverse) σ.reverse := by
  induction σ with
  | nil => rfl
  | cons s σ ih => cases s <;> simp [ih]

theorem Hides.reverse (he : Hides e) : Hides (fun i => (e i).reverse) := by
  intro i
  exact ⟨by simpa using (he i).1, fun c hc => (he i).2 c (List.mem_reverse.mp hc)⟩

theorem getLast?_any_fill (hq : ∀ c ∈ placeholderAlphabet, q c = v) (he : Hides e) (σ : List Slot) :
    (fill e σ).getLast?.any q = σ.getLast?.any (Slot.test q v) := by
  rw [← List.head?_reverse, reverse_fill, head?_any_fill hq he.reverse, List.head?_reverse]

theorem not_isBlank_of_hidden : ∀ c ∈ placeholderAlphabet, isBlank c = false :=
  eq_of_hidden (by decide)

theorem lstrip_fill (he : Hides e) (σ : List Slot) :
    lstrip (fill e σ) = fill e (σ.dropWhile (Slot.test isBlank false)) :=
  dropWhile_fill not_isBlank_of_hidden he σ

def rstripSlots (σ : List Slot) : List Slot := (σ.reverse.dropWhile (Slot.test isBlank false)).reverse

theorem rstrip_fill (he : Hides e) (σ : List Slot) : rstrip (fill e σ) = fill e (rstripSlots σ) := by
  rw [rstrip, reverse_fill, dropWhile_fill not_isBlank_of_hidden he.reverse, reverse_fill, rstripSlots]
  simp only [List.reverse_reverse]

end Scanning

def isVisible (t : Text) : Bool :=
  !t.isEmpty && t.all (fun c => !placeholderAlphabet.contains c && c != '\n')

theorem ne_nil_of_isVisible {t : Text} (h : isVisible t = true) : t ≠ [] := by
  rintro rfl
  simp [isVisible] at h

theorem not_mem_of_isVisible {t : Text} (h : isVisible t = true) {c : CodePoint} (hc : c ∈ t) :
    c ∉ placeholderAlphabet := by
  simp only [isVisible, Bool.and_eq_true, List.all_eq_true] at h
  simpa using (h.2 c hc).1

theorem ne_newline_of_isVisible {t : Text} (h : isVisible t = true) {c : CodePoint} (hc : c ∈ t) :
    c ≠ '\n' := by
  simp only [isVisible, Bool.and_eq_true, List.all_eq_true] at h
  simpa using (h.2 c hc).2

theorem isPrefixOf_fill {o : Text} {e : Nat → Text} (ho : ∀ c ∈ o, c ∉ placeholderAlphabet)
    (he : Hides e) (σ : List Slot) : o.isPrefixOf (fill e σ) = (ofText o).isPrefixOf σ := by
  induction o generalizing σ with
  | nil => rfl
  | cons c o ih =>
      have ho' : ∀ d ∈ o, d ∉ placeholderAlphabet := fun d hd => ho d (List.mem_cons_of_mem _ hd)
      cases σ with
      | nil => rfl
      | cons s σ =>
          cases s with
          | char d =>
              have hσ := ih ho' σ
              simp only [ofText, List.map_cons, fill_char, List.isPrefixOf] at hσ ⊢
              rw [hσ, Slot.char_beq_char]
          | hole i =>
              obtain ⟨d, w, hdw, hmem⟩ := exists_cons_of_hides he i
              have hne : c ≠ d := fun heq => ho c (List.mem_cons_self ..) (heq ▸ hmem)
              simp only [ofText, List.map_cons, fill_hole, hdw, List.cons_append, List.isPrefixOf]
              rw [beq_false_of_ne hne]
              rfl

theorem exists_append_of_isPrefixOf {o : Text} {σ : List Slot}
    (h : (ofText o).isPrefixOf σ = true) : ∃ τ, σ = ofText o ++ τ := by
  obtain ⟨τ, hτ⟩ := List.isPrefixOf_iff_prefix.mp h
  exact ⟨τ, hτ.symm⟩

theorem isPrefixOf_hidden_cons {o t : Text} {c : CodePoint} (ho : isVisible o = true)
    (hc : c ∈ placeholderAlphabet ∨ c = '\n') : o.isPrefixOf (c :: t) = false := by
  cases o with
  | nil => simp [isVisible] at ho
  | cons d o =>
      have hd : d ≠ c := by
        rintro rfl
        rcases hc with hc | hc
        · exact not_mem_of_isVisible ho (List.mem_cons_self ..) hc
        · exact ne_newline_of_isVisible ho (List.mem_cons_self ..) hc
      rw [List.isPrefixOf, beq_false_of_ne hd, Bool.false_and]

end CodeCompaction.Literal
