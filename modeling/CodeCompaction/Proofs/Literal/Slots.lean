import CodeCompaction.Literal.Shield

namespace CodeCompaction.Literal

open CodeCompaction.Text

inductive Slot where
  | char (c : CodePoint)
  | hole (i : Nat)
  deriving DecidableEq, Repr

namespace Slot

def fill (e : Nat → Text) : Slot → Text
  | .char c => [c]
  | .hole i => e i

def index? : Slot → Option Nat
  | .char _ => none
  | .hole i => some i

def renumber (f : Nat → Nat) : Slot → Slot
  | .char c => .char c
  | .hole i => .hole (f i)

end Slot

def fill (e : Nat → Text) (σ : List Slot) : Text := σ.flatMap (Slot.fill e)

def ofText (t : Text) : List Slot := t.map .char

def holes (σ : List Slot) : List Nat := σ.filterMap Slot.index?

section Fill

variable (e : Nat → Text)

@[simp] theorem fill_nil : fill e [] = [] := rfl

@[simp] theorem fill_char (c : CodePoint) (σ : List Slot) : fill e (.char c :: σ) = c :: fill e σ := rfl

@[simp] theorem fill_hole (i : Nat) (σ : List Slot) : fill e (.hole i :: σ) = e i ++ fill e σ := rfl

@[simp] theorem fill_append (σ τ : List Slot) : fill e (σ ++ τ) = fill e σ ++ fill e τ := by
  simp [fill]

@[simp] theorem fill_ofText (t : Text) : fill e (ofText t) = t := by
  induction t with
  | nil => rfl
  | cons c t ih => exact congrArg (c :: ·) ih

theorem fill_renumber (f : Nat → Nat) (σ : List Slot) :
    fill e (σ.map (Slot.renumber f)) = fill (e ∘ f) σ := by
  induction σ with
  | nil => rfl
  | cons s σ ih => cases s <;> simp [Slot.renumber, ih]

theorem fill_congr {e e' : Nat → Text} {σ : List Slot} (h : ∀ i, Slot.hole i ∈ σ → e i = e' i) :
    fill e σ = fill e' σ := by
  induction σ with
  | nil => rfl
  | cons s σ ih =>
      have hσ := ih (fun i hi => h i (List.mem_cons_of_mem _ hi))
      cases s with
      | char c => simp [hσ]
      | hole i => simp [hσ, h i (List.mem_cons_self ..)]

theorem mem_fill {c : CodePoint} {σ : List Slot} :
    c ∈ fill e σ ↔ Slot.char c ∈ σ ∨ ∃ i, Slot.hole i ∈ σ ∧ c ∈ e i := by
  induction σ with
  | nil => simp
  | cons s σ ih =>
      cases s with
      | char d => simp [ih, or_assoc]
      | hole j =>
          simp only [fill_hole, List.mem_append, ih, List.mem_cons, reduceCtorEq, false_or,
            Slot.hole.injEq]
          constructor
          · rintro (h | h | ⟨i, hi, h⟩)
            · exact .inr ⟨j, .inl rfl, h⟩
            · exact .inl h
            · exact .inr ⟨i, .inr hi, h⟩
          · rintro (h | ⟨i, rfl | hi, h⟩)
            · exact .inr (.inl h)
            · exact .inl h
            · exact .inr (.inr ⟨i, hi, h⟩)

end Fill

@[simp] theorem char_mem_ofText {c : CodePoint} {t : Text} : Slot.char c ∈ ofText t ↔ c ∈ t := by
  simp [ofText]

theorem hole_not_mem_ofText (i : Nat) (t : Text) : Slot.hole i ∉ ofText t := by
  simp [ofText]

@[simp] theorem holes_nil : holes [] = [] := rfl

@[simp] theorem holes_char (c : CodePoint) (σ : List Slot) : holes (.char c :: σ) = holes σ := rfl

@[simp] theorem holes_hole (i : Nat) (σ : List Slot) : holes (.hole i :: σ) = i :: holes σ := rfl

@[simp] theorem holes_append (σ τ : List Slot) : holes (σ ++ τ) = holes σ ++ holes τ :=
  List.filterMap_append

theorem mem_holes {i : Nat} {σ : List Slot} : i ∈ holes σ ↔ Slot.hole i ∈ σ := by
  induction σ with
  | nil => simp
  | cons s σ ih => cases s <;> simp [ih]

@[simp] theorem holes_ofText (t : Text) : holes (ofText t) = [] := by
  induction t with
  | nil => rfl
  | cons c t ih => exact ih

theorem holes_sublist {σ τ : List Slot} (h : σ.Sublist τ) : (holes σ).Sublist (holes τ) :=
  h.filterMap _

def weave : List Text → List Text → Text
  | [], _ => []
  | g :: _, [] => g
  | g :: gs, s :: ss => g ++ s ++ weave gs ss

def lay : List Text → List Nat → List Slot
  | [], _ => []
  | g :: _, [] => ofText g
  | g :: gs, i :: is => ofText g ++ .hole i :: lay gs is

theorem fill_lay (e : Nat → Text) (gs : List Text) (is : List Nat) :
    fill e (lay gs is) = weave gs (is.map e) := by
  induction gs generalizing is with
  | nil => rfl
  | cons g gs ih => cases is <;> simp [lay, weave, ih]

theorem holes_lay {gs : List Text} {is : List Nat} (h : gs.length = is.length + 1) :
    holes (lay gs is) = is := by
  induction gs generalizing is with
  | nil => simp at h
  | cons g gs ih =>
      cases is with
      | nil => simp [lay]
      | cons i is => simp [lay, ih (by simpa using h)]

theorem holes_lay_sublist (gs : List Text) (is : List Nat) : (holes (lay gs is)).Sublist is := by
  induction gs generalizing is with
  | nil => exact List.nil_sublist is
  | cons g gs ih =>
      cases is with
      | nil => simp [lay]
      | cons i is => simpa [lay] using ih is

theorem weave_eq_fill {gs ss : List Text} :
    weave gs ss = fill (fun i => (ss[i]?).getD []) (lay gs (List.range ss.length)) := by
  have hss : (List.range ss.length).map (fun i => (ss[i]?).getD []) = ss := by
    refine List.ext_getElem (by simp) (fun i hi hi' => ?_)
    simp [hi']
  rw [fill_lay, hss]

theorem char_mem_lay {c : CodePoint} {gs : List Text} {is : List Nat} (h : Slot.char c ∈ lay gs is) :
    ∃ g ∈ gs, c ∈ g := by
  induction gs generalizing is with
  | nil => simp [lay] at h
  | cons g gs ih =>
      cases is with
      | nil => exact ⟨g, List.mem_cons_self .., char_mem_ofText.mp h⟩
      | cons i is =>
          rcases List.mem_append.mp h with h | h
          · exact ⟨g, List.mem_cons_self .., char_mem_ofText.mp h⟩
          · obtain ⟨g', hg', hc⟩ := ih (by simpa using h)
            exact ⟨g', List.mem_cons_of_mem _ hg', hc⟩

def gaps : List Slot → List Text
  | [] => [[]]
  | .char c :: σ => (gaps σ).modifyHead (c :: ·)
  | .hole _ :: σ => [] :: gaps σ

theorem length_gaps (σ : List Slot) : (gaps σ).length = (holes σ).length + 1 := by
  induction σ with
  | nil => rfl
  | cons s σ ih => cases s <;> simp [gaps, ih]

theorem lay_gaps_holes (σ : List Slot) : lay (gaps σ) (holes σ) = σ := by
  induction σ with
  | nil => rfl
  | cons s σ ih =>
      cases s with
      | hole i => simp [gaps, lay, ofText, ih]
      | char c =>
          have hl := length_gaps σ
          simp only [gaps, holes_char]
          cases hg : gaps σ with
          | nil => simp [hg] at hl
          | cons g gs =>
              rw [hg] at ih
              cases hh : holes σ <;> rw [hh] at ih <;> simpa [lay, ofText] using ih

theorem gaps_ofText_append_hole (g : Text) (i : Nat) (σ : List Slot) :
    gaps (ofText g ++ .hole i :: σ) = g :: gaps σ := by
  induction g with
  | nil => rfl
  | cons c g ih => exact congrArg (List.modifyHead (c :: ·)) ih

theorem gaps_ofText (g : Text) : gaps (ofText g) = [g] := by
  induction g with
  | nil => rfl
  | cons c g ih => exact congrArg (List.modifyHead (c :: ·)) ih

theorem gaps_lay {gs : List Text} {is : List Nat} (h : gs.length = is.length + 1) :
    gaps (lay gs is) = gs := by
  induction gs generalizing is with
  | nil => simp at h
  | cons g gs ih =>
      cases is with
      | nil =>
          obtain rfl : gs = [] := by simpa using h
          exact gaps_ofText g
      | cons i is => rw [lay, gaps_ofText_append_hole, ih (by simpa using h)]

theorem fill_eq_weave (e : Nat → Text) (σ : List Slot) :
    fill e σ = weave (gaps σ) ((holes σ).map e) := by
  rw [← fill_lay, lay_gaps_holes]

theorem char_mem_of_mem_gaps {c : CodePoint} {σ : List Slot} {g : Text} (hg : g ∈ gaps σ) (hc : c ∈ g) :
    Slot.char c ∈ σ := by
  induction σ generalizing g with
  | nil => simp_all [gaps]
  | cons s σ ih =>
      cases s with
      | hole i =>
          rcases List.mem_cons.mp hg with rfl | hg
          · simp at hc
          · exact List.mem_cons_of_mem _ (ih hg hc)
      | char d =>
          simp only [gaps] at hg
          cases hgs : gaps σ with
          | nil => simp [hgs] at hg
          | cons g' gs =>
              rw [hgs, List.modifyHead_cons] at hg
              rcases List.mem_cons.mp hg with rfl | hg
              · rcases List.mem_cons.mp hc with rfl | hc
                · exact List.mem_cons_self ..
                · exact List.mem_cons_of_mem _ (ih (hgs ▸ List.mem_cons_self ..) hc)
              · exact List.mem_cons_of_mem _ (ih (hgs ▸ List.mem_cons_of_mem _ hg) hc)

def literals (ps : List Piece) : List Text := ps.filterMap Piece.span?

@[simp] theorem literals_nil : literals [] = [] := rfl

@[simp] theorem literals_plain (c : CodePoint) (ps : List Piece) :
    literals (.plain c :: ps) = literals ps := rfl

@[simp] theorem literals_literal (s : Text) (ps : List Piece) :
    literals (.literal s :: ps) = s :: literals ps := rfl

def number : Nat → List Piece → List Slot
  | _, [] => []
  | i, .plain c :: ps => .char c :: number i ps
  | i, .literal _ :: ps => .hole i :: number (i + 1) ps

theorem number_eq_renumber (i j : Nat) (ps : List Piece) :
    number (i + j) ps = (number j ps).map (Slot.renumber (i + ·)) := by
  induction ps generalizing j with
  | nil => rfl
  | cons p ps ih =>
      cases p with
      | plain c => simp [number, Slot.renumber, ih]
      | literal s => simp [number, Slot.renumber, ← ih, Nat.add_assoc]

theorem number_append (i : Nat) (ps qs : List Piece) :
    number i (ps ++ qs) = number i ps ++ number (i + (literals ps).length) qs := by
  induction ps generalizing i with
  | nil => rfl
  | cons p ps ih =>
      cases p with
      | plain c => simp [number, ih]
      | literal s => simp [number, ih, Nat.add_assoc, Nat.add_comm 1]

theorem holes_number (i : Nat) (ps : List Piece) :
    holes (number i ps) = List.range' i (literals ps).length := by
  induction ps generalizing i with
  | nil => rfl
  | cons p ps ih =>
      cases p with
      | plain c => simp [number, ih]
      | literal s => simp [number, ih, List.range'_succ]

theorem char_mem_number {c : CodePoint} {i : Nat} {ps : List Piece} (h : Slot.char c ∈ number i ps) :
    Piece.plain c ∈ ps := by
  induction ps generalizing i with
  | nil => simp [number] at h
  | cons p ps ih =>
      cases p with
      | plain d =>
          simp only [number, List.mem_cons, Slot.char.injEq, Piece.plain.injEq] at h ⊢
          exact h.imp id ih
      | literal s =>
          simp only [number, List.mem_cons, reduceCtorEq, false_or] at h ⊢
          exact ih h

theorem forall_literals_tail {P : Nat → Text → Prop} {i : Nat} {s : Text} {ps : List Piece}
    (h : ∀ j x, (literals (.literal s :: ps))[j]? = some x → P (i + j) x) :
    ∀ j x, (literals ps)[j]? = some x → P (i + 1 + j) x := by
  intro j x hx
  have := h (j + 1) x hx
  rwa [← Nat.add_assoc, Nat.add_right_comm] at this

theorem fill_number {e : Nat → Text} {i : Nat} {ps : List Piece}
    (h : ∀ j s, (literals ps)[j]? = some s → e (i + j) = s) :
    fill e (number i ps) = ps.flatMap Piece.text := by
  induction ps generalizing i with
  | nil => rfl
  | cons p ps ih =>
      cases p with
      | plain c =>
          have := ih (i := i) h
          simp [number, Piece.text, this]
      | literal s =>
          have h0 := h 0 s rfl
          have := ih (forall_literals_tail (P := fun j x => e j = x) h)
          simp only [Nat.add_zero] at h0
          simp [number, Piece.text, this, h0]

theorem renderFrom_eq_fill (mark : Text) (i : Nat) (ps : List Piece) :
    renderFrom mark i ps = fill (placeholder mark) (number i ps) := by
  induction ps generalizing i with
  | nil => rfl
  | cons p ps ih => cases p <;> simp [renderFrom, number, ih]

end CodeCompaction.Literal
