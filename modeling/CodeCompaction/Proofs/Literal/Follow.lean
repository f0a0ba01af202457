import CodeCompaction.Proofs.Literal.Rows

namespace CodeCompaction.Literal

open CodeCompaction.Text

inductive Follow where
  | anything
  | lineEnd
  | textEnd
  deriving DecidableEq, Repr

def Follow.Holds : Follow → List Slot → Prop
  | .anything, _ => True
  | .lineEnd, σ => σ = [] ∨ σ.head? = some (.char '\n')
  | .textEnd, σ => σ = []

def Keeps (fits : Nat → Follow → Prop) : List Slot → Prop
  | [] => True
  | .char _ :: σ => Keeps fits σ
  | .hole i :: σ => (∃ f, fits i f ∧ f.Holds σ) ∧ Keeps fits σ

theorem Keeps.suffix {fits : Nat → Follow → Prop} {σ τ : List Slot} (h : Keeps fits (σ ++ τ)) :
    Keeps fits τ := by
  induction σ with
  | nil => exact h
  | cons s σ ih =>
      cases s with
      | char c => exact ih h
      | hole i => exact ih h.2

theorem keeps_ofText_append {fits : Nat → Follow → Prop} (t : Text) {σ : List Slot} (h : Keeps fits σ) :
    Keeps fits (ofText t ++ σ) := by
  induction t with
  | nil => exact h
  | cons c t ih => exact ih

theorem keeps_ofText (fits : Nat → Follow → Prop) (t : Text) : Keeps fits (ofText t) := by
  rw [← List.append_nil (ofText t)]
  exact keeps_ofText_append t trivial

structure Trims (σ' σ : List Slot) : Prop where
  sublist : σ'.Sublist σ
  follow : ∀ f : Follow, f.Holds σ → f.Holds σ'
  keeps : ∀ fits, Keeps fits σ → Keeps fits σ'

theorem Trims.refl (σ : List Slot) : Trims σ σ :=
  ⟨List.Sublist.refl σ, fun _ h => h, fun _ h => h⟩

theorem Trims.trans {σ₁ σ₂ σ₃ : List Slot} (h : Trims σ₁ σ₂) (h' : Trims σ₂ σ₃) : Trims σ₁ σ₃ :=
  ⟨h.sublist.trans h'.sublist, fun f hf => h.follow f (h'.follow f hf),
    fun fits hk => h.keeps fits (h'.keeps fits hk)⟩

theorem Trims.cons {σ' σ : List Slot} (h : Trims σ' σ) (s : Slot) : Trims (s :: σ') (s :: σ) := by
  refine ⟨h.sublist.cons_cons s, ?_, ?_⟩
  · intro f hf
    cases f with
    | anything => trivial
    | lineEnd => simpa [Follow.Holds] using hf
    | textEnd => simp [Follow.Holds] at hf
  · intro fits hk
    cases s with
    | char c => exact h.keeps fits hk
    | hole i =>
        obtain ⟨⟨f, hfits, hf⟩, hrest⟩ := hk
        exact ⟨⟨f, hfits, h.follow f hf⟩, h.keeps fits hrest⟩

theorem Trims.drop {σ₁ σ₂ σ' : List Slot} (h : Trims σ' σ₂) (hne : σ₁ ≠ [])
    (hhead : σ₁.head? ≠ some (.char '\n')) : Trims σ' (σ₁ ++ σ₂) := by
  refine ⟨h.sublist.trans (List.sublist_append_right σ₁ σ₂), ?_, fun fits hk => h.keeps fits hk.suffix⟩
  intro f hf
  cases f with
  | anything => trivial
  | lineEnd =>
      rcases hf with hf | hf
      · exact absurd (List.append_eq_nil_iff.mp hf).1 hne
      · rw [List.head?_append_of_ne_nil σ₁ hne] at hf
        exact absurd hf hhead
  | textEnd => exact absurd (List.append_eq_nil_iff.mp hf).1 hne

structure Edits (σ' σ : Row) : Prop where
  holes_sublist : (holes σ').Sublist (holes σ)
  char_mem : ∀ c, Slot.char c ∈ σ' → Slot.char c ∈ σ ∨ c ∈ "pass\n".toText
  keeps : ∀ fits, Keeps fits σ → Keeps fits σ'

theorem Trims.edits {σ' σ : Row} (h : Trims σ' σ) : Edits σ' σ :=
  ⟨holes_sublist h.sublist, fun _ hc => .inl (h.sublist.subset hc), h.keeps⟩

theorem Edits.trans {σ₁ σ₂ σ₃ : Row} (h : Edits σ₁ σ₂) (h' : Edits σ₂ σ₃) : Edits σ₁ σ₃ := by
  refine ⟨h.holes_sublist.trans h'.holes_sublist, ?_, fun fits hk => h.keeps fits (h'.keeps fits hk)⟩
  intro c hc
  rcases h.char_mem c hc with hc | hc
  · exact h'.char_mem c hc
  · exact .inr hc

theorem keeps_append_newline {fits : Nat → Follow → Prop} {ρ τ τ' : Row}
    (h : Keeps fits (ρ ++ .char '\n' :: τ)) (h' : Keeps fits τ') :
    Keeps fits (ρ ++ .char '\n' :: τ') := by
  induction ρ with
  | nil => exact h'
  | cons x ρ ih =>
      cases x with
      | char c => exact ih h
      | hole i =>
          obtain ⟨⟨f, hfits, hf⟩, hrest⟩ := h
          refine ⟨⟨f, hfits, ?_⟩, ih hrest⟩
          cases f with
          | anything => trivial
          | lineEnd =>
              cases ρ with
              | nil => exact .inr rfl
              | cons y ρ => exact .inr (by simpa [Follow.Holds] using hf)
          | textEnd => simp [Follow.Holds] at hf

theorem keeps_of_append_newline {fits : Nat → Follow → Prop} {ρ τ : Row}
    (h : Keeps fits (ρ ++ .char '\n' :: τ)) : Keeps fits ρ := by
  induction ρ with
  | nil => trivial
  | cons x ρ ih =>
      cases x with
      | char c => exact ih h
      | hole i =>
          obtain ⟨⟨f, hfits, hf⟩, hrest⟩ := h
          refine ⟨⟨f, hfits, ?_⟩, ih hrest⟩
          cases f with
          | anything => trivial
          | lineEnd =>
              cases ρ with
              | nil => exact .inl rfl
              | cons y ρ => exact .inr (by simpa [Follow.Holds] using hf)
          | textEnd => simp [Follow.Holds] at hf

end CodeCompaction.Literal
