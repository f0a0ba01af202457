import Mathlib.Data.List.Basic
import CodeCompaction.Proofs.Literal.Slots
import CodeCompaction.Proofs.Text.Search

namespace CodeCompaction.Literal

open CodeCompaction.Number CodeCompaction.Text

def digits : List CodePoint := [ch '0', '1', '2', '3', '4', '5', '6', '7', '8', '9']

def placeholderAlphabet : List CodePoint := sentinels ++ openTag ++ closeTag ++ digits

theorem mem_digits_of_isDigit {c : Char} (h : c.isDigit = true) : ch c ∈ digits := by
  have hall : ∀ d, d < 10 → ch (Nat.digitChar d) ∈ digits := by decide
  obtain ⟨hlo, hhi⟩ : 48 ≤ c.toNat ∧ c.toNat ≤ 57 := Char.isDigit_iff_toNat.mp h
  have hc : Nat.digitChar (c.toNat - 48) = c := by
    apply Char.toNat_inj.mp
    rw [Nat.toNat_digitChar_of_lt_ten (by omega)]
    omega
  exact hc ▸ hall (c.toNat - 48) (by omega)

theorem mem_digits_of_mem_decimal {c : CodePoint} {i : Nat} (h : c ∈ decimal i) : c ∈ digits := by
  obtain ⟨a, ha, rfl⟩ := exists_of_mem_decimal h
  exact mem_digits_of_isDigit ha

theorem digitValue?_of_mem_digits {d : CodePoint} (h : d ∈ digits) :
    digitValue? d = some (d.toNat - '0'.toNat) := by
  have hall : digits.all (fun d => digitValue? d == some (d.toNat - '0'.toNat)) = true := by decide
  simpa using List.all_eq_true.mp hall d h

theorem eq_of_hidden {q : CodePoint → Bool} {v : Bool}
    (h : placeholderAlphabet.all (fun c => q c == v) = true) : ∀ c ∈ placeholderAlphabet, q c = v := by
  intro c hc
  simpa using List.all_eq_true.mp h c hc

theorem isDecimalDigit_of_mem_digits {d : CodePoint} (h : d ∈ digits) : isDecimalDigit d = true := by
  rw [isDecimalDigit, digitValue?_of_mem_digits h]
  rfl

theorem decimalValue_decimal (i : Nat) : decimalValue (decimal i) = i := by
  have hstep : decimalValue (decimal i) = Nat.ofDigitChars 10 (Nat.toDigits 10 i) 0 := by
    rw [decimalValue, decimal, List.foldl_map, Nat.ofDigitChars_eq_foldl]
    refine List.foldl_ext _ _ _ (fun n d hd => ?_)
    rw [digitValue?_of_mem_digits (mem_digits_of_mem_decimal (List.mem_map_of_mem hd))]
    rfl
  rw [hstep, Nat.ofDigitChars_ten_toDigits]

theorem after?_append (a t : Text) : after? a (a ++ t) = some t := by
  have h : a.isPrefixOf (a ++ t) = true := List.isPrefixOf_iff_prefix.mpr (List.prefix_append a t)
  rw [after?, if_pos h, List.drop_left]

theorem takeWhile_decimal (i : Nat) (t : Text) :
    (decimal i ++ (closeTag ++ t)).takeWhile isDecimalDigit = decimal i := by
  rw [List.takeWhile_append_of_pos
    (fun d hd => isDecimalDigit_of_mem_digits (mem_digits_of_mem_decimal hd))]
  have hE : isDecimalDigit 'E' = false := by decide
  simp [closeTag, hE]

theorem readPlaceholder?_placeholder (mark : Text) (i : Nat) (t : Text) :
    readPlaceholder? mark (placeholder mark i ++ t) = some (i, (placeholder mark i).length) := by
  have hsplit : placeholder mark i ++ t =
      (mark ++ openTag) ++ (decimal i ++ (closeTag ++ (mark ++ t))) := by
    simp [placeholder, enclosed]
  have hclose : after? (closeTag ++ mark) (closeTag ++ (mark ++ t)) = some t := by
    rw [← List.append_assoc, after?_append]
  have hne : (decimal i).isEmpty = false := by
    simp [decimal_ne_nil]
  have hlen : (placeholder mark i).length = 2 * mark.length + (decimal i).length + 6 := by
    simp [placeholder, enclosed, openTag, closeTag]
    omega
  rw [hsplit, readPlaceholder?, after?_append]
  simp only [Option.bind_eq_bind, Option.bind_some, takeWhile_decimal, hne, Bool.false_eq_true,
    if_false, List.drop_left, hclose, decimalValue_decimal, hlen]

theorem readPlaceholder?_of_ne {c d : CodePoint} (h : d ≠ c) (t : Text) :
    readPlaceholder? [c] (d :: t) = none := by
  have hp : after? ([c] ++ openTag) (d :: t) = none := by
    simp [after?, Ne.symm h]
  rw [readPlaceholder?, hp]
  rfl

theorem placeholder_ne_nil (c : CodePoint) (i : Nat) : placeholder [c] i ≠ [] := by
  simp [placeholder, enclosed]

theorem restoring_flagless (mark : Text) (spans : Array Text) :
    (restoring mark spans).Flagless := fun _ _ => rfl

theorem unshield_fill {c : CodePoint} {spans : Array Text} {r : Nat → Nat} {lit : Nat → Text}
    {σ : List Slot} (hc : Slot.char c ∉ σ)
    (hr : ∀ i, Slot.hole i ∈ σ → spans[r i]? = some (lit i)) :
    unshield [c] spans (fill (fun i => placeholder [c] (r i)) σ) = fill lit σ := by
  rw [unshield]
  split
  · rename_i hempty
    obtain rfl : spans = #[] := by simpa using hempty
    exact fill_congr (fun i hi => by simpa using hr i hi)
  · induction σ with
    | nil => rfl
    | cons s σ ih =>
        have hσ := ih (fun h => hc (List.mem_cons_of_mem _ h))
          (fun i hi => hr i (List.mem_cons_of_mem _ hi))
        cases s with
        | char d =>
            have hd : d ≠ c := fun heq => hc (heq ▸ List.mem_cons_self ..)
            rw [fill_char, rewrite_cons_of_none (restoring_flagless _ _), hσ, fill_char]
            rw [restoring, readPlaceholder?_of_ne hd, Option.map_none]
        | hole i =>
            have hi := hr i (List.mem_cons_self ..)
            have hmatch (t : Text) : restoring [c] spans true (placeholder [c] (r i) ++ t) =
                some ((placeholder [c] (r i)).length, lit i) := by
              rw [restoring, readPlaceholder?_placeholder, Option.map_some]
              simp only [hi, Option.getD_some]
            rw [fill_hole, rewrite_append_of_match (restoring_flagless _ _) (placeholder_ne_nil c _)
              (hmatch _), hσ, fill_hole]

theorem placeholder_append_inj {c : CodePoint} {i j : Nat} {t u : Text}
    (h : placeholder [c] i ++ t = placeholder [c] j ++ u) : i = j ∧ t = u := by
  have hi := readPlaceholder?_placeholder [c] i t
  rw [h, readPlaceholder?_placeholder] at hi
  obtain rfl : j = i := congrArg Prod.fst (Option.some.inj hi)
  exact ⟨rfl, List.append_cancel_left h⟩

theorem fill_placeholder_injective {c : CodePoint} {σ τ : List Slot} (hσ : Slot.char c ∉ σ)
    (hτ : Slot.char c ∉ τ) (h : fill (placeholder [c]) σ = fill (placeholder [c]) τ) : σ = τ := by
  have head (i : Nat) (t : Text) : ∃ t', placeholder [c] i ++ t = c :: t' := ⟨_, rfl⟩
  induction σ generalizing τ with
  | nil =>
      cases τ with
      | nil => rfl
      | cons s τ =>
          cases s with
          | char d => simp at h
          | hole j => simp [placeholder_ne_nil] at h
  | cons s σ ih =>
      have hσ' : Slot.char c ∉ σ := fun hm => hσ (List.mem_cons_of_mem _ hm)
      cases τ with
      | nil =>
          cases s with
          | char d => simp at h
          | hole j => simp [placeholder_ne_nil] at h
      | cons s' τ =>
          have hτ' : Slot.char c ∉ τ := fun hm => hτ (List.mem_cons_of_mem _ hm)
          cases s with
          | char d =>
              cases s' with
              | char d' =>
                  rw [fill_char, fill_char, List.cons.injEq] at h
                  rw [h.1, ih hσ' hτ' h.2]
              | hole j =>
                  obtain ⟨t', ht'⟩ := head j (fill (placeholder [c]) τ)
                  rw [fill_char, fill_hole, ht', List.cons.injEq] at h
                  exact absurd (h.1 ▸ List.mem_cons_self ..) hσ
          | hole i =>
              cases s' with
              | char d' =>
                  obtain ⟨t', ht'⟩ := head i (fill (placeholder [c]) σ)
                  rw [fill_char, fill_hole, ht', List.cons.injEq] at h
                  exact absurd (h.1 ▸ List.mem_cons_self ..) hτ
              | hole j =>
                  obtain ⟨rfl, hrest⟩ := placeholder_append_inj h
                  rw [ih hσ' hτ' hrest]

def Hides (e : Nat → Text) : Prop := ∀ i, e i ≠ [] ∧ ∀ c ∈ e i, c ∈ placeholderAlphabet

theorem hides_placeholder {c : CodePoint} (hc : c ∈ sentinels) (r : Nat → Nat) :
    Hides (fun i => placeholder [c] (r i)) := by
  intro i
  refine ⟨placeholder_ne_nil c (r i), ?_⟩
  intro d hd
  have hdigit : d ∈ decimal (r i) → d ∈ digits := mem_digits_of_mem_decimal
  simp only [placeholder, enclosed, List.mem_append, List.mem_singleton] at hd
  simp only [placeholderAlphabet, List.mem_append]
  rcases hd with (((rfl | hd) | hd) | hd) | rfl
  · exact .inl (.inl (.inl hc))
  · exact .inl (.inl (.inr hd))
  · exact .inr (hdigit hd)
  · exact .inl (.inr hd)
  · exact .inl (.inl (.inl hc))

end CodeCompaction.Literal
