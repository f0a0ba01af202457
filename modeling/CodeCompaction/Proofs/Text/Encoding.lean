import Mathlib
import CodeCompaction.Text.Encoding

namespace CodeCompaction

namespace Text

variable {s t : Text}

section Refusal

theorem refusalOf_eq_none_iff {bad : CodePoint → Bool} :
    refusalOf bad t = none ↔ ∀ c ∈ t, bad c = false := by
  have hdrop : t.drop (t.findIdx bad) = [] ↔ ∀ c ∈ t, bad c = false := by
    rw [List.drop_eq_nil_iff, ← List.findIdx_eq_length]
    exact ⟨fun hle => Nat.le_antisymm List.findIdx_le_length hle, fun heq => heq.ge⟩
  rw [← hdrop, refusalOf]
  cases t.drop (t.findIdx bad) <;> simp

theorem refusal?_eq_none_iff : refusal? t = none ↔ isScalar t = true := by
  rw [refusal?, refusalOf_eq_none_iff, isScalar, List.all_eq_true]
  simp only [Bool.not_eq_true']

def isPathChar : CodePoint → Bool
  | ch c => c != '\x00'
  | .lone n => isEscapedByte (.lone n)

theorem pathRefusal?_eq_none_iff : pathRefusal? t = none ↔ ∀ c ∈ t, isPathChar c = true := by
  rw [pathRefusal?, Option.or_eq_none_iff, refusalOf_eq_none_iff]
  constructor
  · rintro ⟨hlegal, hnull⟩ c hc
    cases c with
    | lone n => simpa [CodePoint.isLone, isPathChar] using hlegal _ hc
    | ch a =>
        rw [isPathChar, bne_iff_ne]
        rintro rfl
        rw [if_pos (List.elem_eq_true_of_mem hc)] at hnull
        exact absurd hnull (by simp)
  · intro h
    refine ⟨fun c hc => ?_, if_neg fun hnull => ?_⟩
    · have hpath := h c hc
      cases c with
      | ch a => rfl
      | lone n => simpa [CodePoint.isLone, isPathChar] using hpath
    · exact absurd (h _ (List.mem_of_elem_eq_true hnull)) (by decide)

theorem pathRefusal?_of_subset (h : s ⊆ t) (ht : t.pathRefusal? = none) : s.pathRefusal? = none :=
  pathRefusal?_eq_none_iff.mpr fun c hc => pathRefusal?_eq_none_iff.mp ht c (h hc)

end Refusal

section NameSize

@[simp] theorem nameSize_nil : nameSize [] = 0 := rfl

@[simp] theorem nameSize_cons (c : CodePoint) (t : Text) :
    nameSize (c :: t) = (if isEscapedByte c then 1 else c.utf8Size) + nameSize t := rfl

theorem nameSize_append (s t : Text) : nameSize (s ++ t) = nameSize s + nameSize t := by
  induction s with
  | nil => exact (Nat.zero_add _).symm
  | cons c s ih => rw [List.cons_append, nameSize_cons, nameSize_cons, ih, Nat.add_assoc]

theorem nameSize_le_of_sublist (h : s.Sublist t) : nameSize s ≤ nameSize t := by
  induction h with
  | slnil => exact Nat.le_refl _
  | cons c _ ih => exact ih.trans (Nat.le_add_left ..)
  | cons_cons c _ ih => exact Nat.add_le_add_left ih _

theorem length_le_nameSize (t : Text) : t.length ≤ nameSize t := by
  induction t with
  | nil => exact Nat.le_refl _
  | cons c t ih =>
      have hone : 1 ≤ if isEscapedByte c then 1 else c.utf8Size := by
        split
        · exact Nat.le_refl 1
        · exact c.utf8Size_pos
      rw [List.length_cons, nameSize_cons]
      omega

theorem nameSize_intercalate_slash (ls : List Text) :
    nameSize (List.intercalate [ch '/'] ls) = (ls.map (nameSize · + 1)).sum - 1 := by
  induction ls with
  | nil => rfl
  | cons l ls ih =>
      cases ls with
      | nil => simp
      | cons l' ls =>
          have hslash : nameSize [ch '/'] = 1 := rfl
          rw [List.intercalate_cons_of_ne_nil (List.cons_ne_nil _ _), nameSize_append, nameSize_append, ih, hslash]
          simp only [List.map_cons, List.sum_cons]
          omega

end NameSize

end Text

section Decoding

variable {t : Text} {bytes : ByteArray}

theorem encode_toText (s : String) : encode s.toText = s.toUTF8 := by
  rw [encode, String.toText, List.flatMap_map]
  exact String.utf8Encode_toList

theorem decode?_toUTF8 (s : String) : decode? s.toUTF8 = some s.toText := by
  have hutf8 : String.fromUTF8? s.toUTF8 = some s := by
    simp only [String.fromUTF8?, String.toUTF8_eq_toByteArray, dif_pos s.isValidUTF8]
    rfl
  rw [decode?, hutf8, Option.map_some]

theorem isScalar_toText (s : String) : s.toText.isScalar = true := by
  simp [Text.isScalar, CodePoint.isLone]

theorem exists_toText_of_isScalar (h : t.isScalar = true) : ∃ s : String, s.toText = t := by
  induction t with
  | nil => exact ⟨"", rfl⟩
  | cons c t ih =>
      rw [Text.isScalar, List.all_cons, Bool.and_eq_true] at h
      obtain ⟨s, rfl⟩ := ih h.2
      cases c with
      | lone n => exact absurd h.1 Bool.false_ne_true
      | ch a => exact ⟨String.ofList (a :: s.toList), by simp⟩

theorem decode?_encode (h : t.isScalar = true) : decode? (encode t) = some t := by
  obtain ⟨s, rfl⟩ := exists_toText_of_isScalar h
  rw [encode_toText, decode?_toUTF8]

theorem decode?_eq_some_iff : decode? bytes = some t ↔ t.isScalar = true ∧ encode t = bytes := by
  constructor
  · intro h
    obtain ⟨s, hs, rfl⟩ := Option.map_eq_some_iff.mp h
    refine ⟨isScalar_toText s, ?_⟩
    rw [String.fromUTF8?] at hs
    split at hs
    · rw [encode_toText, ← Option.some.inj hs]
      rfl
    · exact absurd hs (by simp)
  · rintro ⟨hscalar, rfl⟩
    exact decode?_encode hscalar

theorem encode_injective {a b : Text} (ha : a.isScalar = true) (hb : b.isScalar = true)
    (h : encode a = encode b) : a = b := by
  have hdecode := decode?_encode ha
  rw [h, decode?_encode hb] at hdecode
  exact (Option.some.inj hdecode).symm

end Decoding

end CodeCompaction
