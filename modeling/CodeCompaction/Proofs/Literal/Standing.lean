import Mathlib.Data.List.Chain
import CodeCompaction.Proofs.Literal.Slots
import CodeCompaction.Proofs.Text.Layout

namespace CodeCompaction.Text

def isFirm (c : CodePoint) : Bool := !isInlineBlank c && c != '\n'

def endsFirm (t : Text) : Bool := t.getLast?.any isFirm

theorem isFirm_iff {c : CodePoint} : isFirm c = true ↔ isInlineBlank c = false ∧ c ≠ '\n' := by
  simp [isFirm]

theorem tidyStep_of_isFirm {c : CodePoint} (h : isFirm c = true) (t : Text) : tidyStep c t = c :: t := by
  obtain ⟨hb, hn⟩ := isFirm_iff.mp h
  simp [tidyStep, hb, hn]

theorem endsFirm_append_singleton (t : Text) (c : CodePoint) : endsFirm (t ++ [c]) = isFirm c := by
  simp [endsFirm]

theorem exists_of_endsFirm {t : Text} (h : endsFirm t = true) :
    ∃ a c, t = a ++ [c] ∧ isFirm c = true := by
  rw [endsFirm] at h
  cases hc : t.getLast? with
  | none => simp [hc] at h
  | some c =>
      obtain ⟨a, rfl⟩ := List.getLast?_eq_some_iff.mp hc
      exact ⟨a, c, rfl, by simpa [hc] using h⟩

theorem foldr_tidyStep_append_firm (a : Text) {c : CodePoint} (hc : isFirm c = true) (r : Text) :
    ∃ b, tidied (a ++ [c]) = b ++ [c] ∧ (a ++ [c]).foldr tidyStep r = b ++ c :: r := by
  induction a with
  | nil => exact ⟨[], tidyStep_of_isFirm hc [], tidyStep_of_isFirm hc r⟩
  | cons d a ih =>
      obtain ⟨b, hb, hr⟩ := ih
      have hsame : atLineEnd (b ++ c :: r) = atLineEnd (b ++ [c]) ∧
          startsDouble (b ++ c :: r) = startsDouble (b ++ [c]) := by
        obtain ⟨-, hn⟩ := isFirm_iff.mp hc
        cases b with
        | nil => simp [atLineEnd, startsDouble, startsLine, hn]
        | cons x b => cases b <;> simp [atLineEnd, startsDouble, startsLine]
      rw [List.cons_append, tidied_cons, hb, List.foldr_cons, hr, tidyStep, tidyStep, hsame.1, hsame.2]
      split
      · exact ⟨b, rfl, rfl⟩
      · exact ⟨d :: b, rfl, rfl⟩

theorem foldr_tidyStep_of_endsFirm {t : Text} (h : endsFirm t = true) (r : Text) :
    t.foldr tidyStep r = tidied t ++ r := by
  obtain ⟨a, c, rfl, hc⟩ := exists_of_endsFirm h
  obtain ⟨b, hb, hr⟩ := foldr_tidyStep_append_firm a hc r
  rw [hr, hb, List.append_assoc, List.singleton_append]

def Jointed (t : Text) : Prop := t.IsChain (fun a b => b = ch '\n' → a = ch '\\')

theorem jointed_of_no_newline {t : Text} (h : ch '\n' ∉ t) : Jointed t := by
  induction t with
  | nil => exact .nil
  | cons a t ih =>
      have ht := ih (fun hm => h (List.mem_cons_of_mem _ hm))
      cases t with
      | nil => exact .singleton a
      | cons b t =>
          refine .cons_cons ?_ ht
          rintro rfl
          exact absurd (by simp) h

theorem foldr_tidyStep_of_jointed {t r : Text} (h : Jointed t)
    (hlast : ∀ a c, t = a ++ [c] → tidyStep c r = c :: r) : t.foldr tidyStep r = t ++ r := by
  induction t with
  | nil => rfl
  | cons c t ih =>
      cases t with
      | nil => exact hlast [] c rfl
      | cons d t =>
          obtain ⟨hcd, ht⟩ := List.isChain_cons_cons.mp h
          have hrest := ih ht (fun a x hax => hlast (c :: a) x (by rw [hax, List.cons_append]))
          rw [List.foldr_cons, hrest, List.cons_append, List.cons_append, List.cons_append, tidyStep]
          by_cases hd : d = '\n'
          · obtain rfl := hcd hd
            simp [isInlineBlank]
          · simp [atLineEnd, startsDouble, startsLine, hd]

end CodeCompaction.Text

namespace CodeCompaction.Literal

open CodeCompaction.Text

structure Sturdy (x : Text) : Prop where
  tidied_eq : tidied x = x
  ends : endsFirm x = true
  starts : startsLine x = false

theorem Sturdy.ne_nil {x : Text} (h : Sturdy x) : x ≠ [] := by
  rintro rfl
  exact absurd h.ends (by simp [endsFirm])

theorem sturdy_of_no_newline {x : Text} (hx : ch '\n' ∉ x) (hends : endsFirm x = true) : Sturdy x := by
  refine ⟨?_, hends, ?_⟩
  · have h := foldr_tidyStep_of_jointed (r := []) (jointed_of_no_newline hx) (by
      rintro a c rfl
      rw [endsFirm_append_singleton] at hends
      exact tidyStep_of_isFirm hends [])
    rwa [List.append_nil] at h
  · cases x with
    | nil => rfl
    | cons c x =>
        have hc : c ≠ '\n' := fun heq => hx (heq ▸ List.mem_cons_self ..)
        simp [startsLine, hc]

def slotAtLineEnd : List Slot → Bool
  | [] => true
  | .char c :: _ => c == '\n'
  | .hole _ :: _ => false

def slotStartsLine : List Slot → Bool
  | .char c :: _ => c == '\n'
  | _ => false

def slotStartsDouble : List Slot → Bool
  | .char c :: σ => c == '\n' && slotStartsLine σ
  | _ => false

section Tidying

variable {e : Nat → Text} {σ : List Slot}

theorem exists_cons_of_sturdy {x : Text} (h : Sturdy x) : ∃ c w, x = c :: w ∧ c ≠ '\n' := by
  obtain ⟨c, w, rfl⟩ := List.exists_cons_of_ne_nil h.ne_nil
  exact ⟨c, w, rfl, by simpa [startsLine] using h.starts⟩

theorem atLineEnd_fill (he : ∀ i, Slot.hole i ∈ σ → Sturdy (e i)) :
    atLineEnd (fill e σ) = slotAtLineEnd σ := by
  cases σ with
  | nil => rfl
  | cons s σ =>
      cases s with
      | char c => rfl
      | hole i =>
          obtain ⟨c, w, hcw, hc⟩ := exists_cons_of_sturdy (he i (List.mem_cons_self ..))
          simp [hcw, atLineEnd, slotAtLineEnd, hc]

theorem startsLine_fill (he : ∀ i, Slot.hole i ∈ σ → Sturdy (e i)) :
    startsLine (fill e σ) = slotStartsLine σ := by
  cases σ with
  | nil => rfl
  | cons s σ =>
      cases s with
      | char c => simp [startsLine, slotStartsLine]
      | hole i =>
          obtain ⟨c, w, hcw, hc⟩ := exists_cons_of_sturdy (he i (List.mem_cons_self ..))
          simp [hcw, startsLine, slotStartsLine, hc]

theorem startsDouble_fill (he : ∀ i, Slot.hole i ∈ σ → Sturdy (e i)) :
    startsDouble (fill e σ) = slotStartsDouble σ := by
  have hline := startsLine_fill he
  cases σ with
  | nil => rfl
  | cons s σ =>
      cases s with
      | char c =>
          have hσ := startsLine_fill (fun i hi => he i (List.mem_cons_of_mem _ hi))
          rw [startsDouble, hline, fill_char, List.tail_cons, hσ]
          rfl
      | hole i =>
          rw [startsDouble, hline]
          rfl

theorem exists_tidied_fill (σ : List Slot) : ∃ σ', σ'.Sublist σ ∧
    ∀ e, (∀ i, Slot.hole i ∈ σ → Sturdy (e i)) → tidied (fill e σ) = fill e σ' := by
  induction σ with
  | nil => exact ⟨[], .slnil, fun _ _ => rfl⟩
  | cons s σ ih =>
      obtain ⟨σ', hsub, hσ'⟩ := ih
      have htail {e : Nat → Text} (he : ∀ i, Slot.hole i ∈ s :: σ → Sturdy (e i)) :
          ∀ i, Slot.hole i ∈ σ → Sturdy (e i) := fun i hi => he i (List.mem_cons_of_mem _ hi)
      cases s with
      | hole i =>
          refine ⟨.hole i :: σ', hsub.cons_cons _, fun e he => ?_⟩
          have hi := he i (List.mem_cons_self ..)
          rw [fill_hole, tidied, List.foldr_append, ← tidied, hσ' e (htail he),
            foldr_tidyStep_of_endsFirm hi.ends, hi.tidied_eq, fill_hole]
      | char c =>
          have hstep (e : Nat → Text) (he : ∀ i, Slot.hole i ∈ Slot.char c :: σ → Sturdy (e i)) :
              tidied (fill e (.char c :: σ)) =
                if (isInlineBlank c && slotAtLineEnd σ') || (c == '\n' && slotStartsDouble σ')
                then fill e σ' else c :: fill e σ' := by
            have he' : ∀ i, Slot.hole i ∈ σ' → Sturdy (e i) :=
              fun i hi => htail he i (hsub.subset hi)
            rw [fill_char, tidied_cons, hσ' e (htail he), tidyStep, atLineEnd_fill he',
              startsDouble_fill he']
          cases hdrop : (isInlineBlank c && slotAtLineEnd σ') || (c == '\n' && slotStartsDouble σ') with
          | true => exact ⟨σ', hsub.cons _, fun e he => by rw [hstep e he, hdrop, if_pos rfl]⟩
          | false =>
              exact ⟨.char c :: σ', hsub.cons_cons _, fun e he => by
                rw [hstep e he, hdrop, if_neg Bool.false_ne_true, fill_char]⟩

end Tidying

end CodeCompaction.Literal
