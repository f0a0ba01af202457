import CodeCompaction.Proofs.Json.Writing

namespace CodeCompaction.Json

open CodeCompaction.Text CodeCompaction.Number

section Strings

theorem stringUnits_take_append {t : Text} {us : List Written} {n : Nat} (h : stringUnits t = some (us, n))
    (u : Text) : stringUnits (t.take n ++ u) = some (us, n) := by
  fun_induction stringUnits t generalizing us n with
  | case1 => simp at h
  | case2 cs =>
      obtain ⟨rfl, rfl⟩ := Prod.mk.inj (Option.some.inj h)
      rfl
  | case3 a b c d cs ih =>
      simp only [Option.bind_eq_bind, Option.bind_eq_some_iff, Option.some.injEq, Prod.mk.injEq,
        Prod.exists] at h
      obtain ⟨x, hx, vs, k, hcs, rfl, rfl⟩ := h
      have hunits := stringUnits_unicode (w := [a, b, c, d]) (t := cs.take k ++ u) rfl hx
      rw [ih hcs] at hunits
      exact hunits
  | case4 e cs hu ih =>
      simp only [Option.bind_eq_bind, Option.bind_eq_some_iff, Option.some.injEq, Prod.mk.injEq,
        Prod.exists] at h
      obtain ⟨x, hx, vs, k, hcs, rfl, rfl⟩ := h
      have he : e ≠ 'u' := by
        rintro rfl
        have hlookup : shortEscapes.lookup (ch 'u') = none := by decide
        rw [hlookup] at hx
        simp at hx
      have hunits := stringUnits_short he hx (cs.take k ++ u)
      rw [ih hcs] at hunits
      exact hunits
  | case5 c cs _ _ _ _ => simp at h
  | case6 c cs hquote _ _ hplain ih =>
      simp only [Option.map_eq_some_iff, Prod.mk.injEq, Prod.exists] at h
      obtain ⟨vs, k, hcs, rfl, rfl⟩ := h
      simp only [Bool.or_eq_true, decide_eq_true_eq, beq_iff_eq, not_or, Nat.not_lt] at hplain
      have hunits := stringUnits_plain hquote hplain.2 hplain.1 (cs.take k ++ u)
      rw [ih hcs] at hunits
      exact hunits

theorem stringToken_append {w t : Text} {k : Token} (h : stringToken (w ++ t) = (k, w.length))
    (hk : k ≠ .fault) (u : Text) : stringToken (w ++ u) = (k, w.length) := by
  unfold stringToken at h
  split at h
  · exact absurd (Prod.mk.inj h).1.symm hk
  · rename_i us m hunits
    obtain ⟨rfl, rfl⟩ := Prod.mk.inj h
    have hlocal := stringUnits_take_append hunits u
    rw [List.take_left] at hlocal
    simp only [stringToken, hlocal]

end Strings

section Numbers

def EndsNumber (t : Text) : Prop := ∀ d ∈ t.head?, isNumeral d = false

variable {u : Text}

theorem digitRun_of_endsNumber (hu : EndsNumber u) : digitRun u = [] := by
  cases u with
  | nil => rfl
  | cons d u =>
      have hd := hu d rfl
      simp only [isNumeral, Bool.or_eq_false_iff] at hd
      simp [digitRun, hd.1.1.1.1.1]

theorem digitRun_append (hu : EndsNumber u) (w : Text) : digitRun (w ++ u) = digitRun w := by
  have hstop := digitRun_of_endsNumber hu
  rw [digitRun] at hstop
  rw [digitRun, digitRun, List.takeWhile_append, hstop, List.append_nil]
  split
  · rename_i hall
    exact ((List.takeWhile_prefix isDigit).eq_of_length hall).symm
  · rfl

theorem wholeDigits_append (hu : EndsNumber u) (w : Text) : wholeDigits (w ++ u) = wholeDigits w := by
  by_cases hzero : w.head? = some (ch '0')
  · obtain ⟨w', rfl⟩ := List.head?_eq_some_iff.mp hzero
    rfl
  · have hother : ∀ t : Text, t.head? ≠ some (ch '0') → wholeDigits t = digitRun t := by
      intro t ht
      rw [wholeDigits]
      rintro t' rfl
      exact ht rfl
    rw [hother w hzero, hother (w ++ u), digitRun_append hu]
    cases w with
    | nil =>
        intro hhead
        exact absurd (hu '0' hhead) (by decide)
    | cons c w => exact hzero

theorem fractionDigits_of_ne_point {t : Text} (h : t.head? ≠ some (ch '.')) : fractionDigits t = [] := by
  rw [fractionDigits]
  rintro cs rfl
  exact h rfl

theorem fractionDigits_append (hu : EndsNumber u) (w : Text) :
    fractionDigits (w ++ u) = fractionDigits w := by
  by_cases hpoint : w.head? = some (ch '.')
  · obtain ⟨w', rfl⟩ := List.head?_eq_some_iff.mp hpoint
    exact digitRun_append hu w'
  · rw [fractionDigits_of_ne_point hpoint, fractionDigits_of_ne_point]
    cases w with
    | nil =>
        intro hhead
        exact absurd (hu '.' hhead) (by decide)
    | cons c w => exact hpoint

theorem exponentSign_of_endsNumber (hu : EndsNumber u) : exponentSign u = [] := by
  unfold exponentSign
  split
  · exact absurd (hu '-' rfl) (by decide)
  · exact absurd (hu '+' rfl) (by decide)
  · rfl

theorem exponentSign_append (hu : EndsNumber u) (w : Text) :
    exponentSign (w ++ u) = exponentSign w := by
  cases w with
  | nil => exact exponentSign_of_endsNumber hu
  | cons c w =>
      by_cases hminus : c = '-'
      · rw [hminus]
        rfl
      · by_cases hplus : c = '+'
        · rw [hplus]
          rfl
        · simp [exponentSign, hminus, hplus]

theorem length_exponentSign_le (t : Text) : (exponentSign t).length ≤ t.length := by
  unfold exponentSign
  split <;> simp

theorem exponentPart_append (hu : EndsNumber u) (w : Text) :
    exponentPart (w ++ u) = exponentPart w := by
  cases w with
  | nil =>
      cases u with
      | nil => rfl
      | cons d u =>
          have hd := hu d rfl
          simp only [isNumeral, Bool.or_eq_false_iff] at hd
          rw [List.nil_append, exponentPart_cons, if_neg (by simp [hd.1.2, hd.2])]
          rfl
  | cons e w =>
      have hdigits : digitRun ((w ++ u).drop (exponentSign w).length) =
          digitRun (w.drop (exponentSign w).length) := by
        rw [List.drop_append_of_le_length (length_exponentSign_le w), digitRun_append hu]
      rw [List.cons_append, exponentPart_cons, exponentPart_cons, exponentSign_append hu, hdigits]

theorem length_fractionDigits_lt {t : Text} (h : fractionDigits t ≠ []) :
    (fractionDigits t).length + 1 ≤ t.length := by
  by_cases hpoint : t.head? = some (ch '.')
  · obtain ⟨cs, rfl⟩ := List.head?_eq_some_iff.mp hpoint
    exact Nat.succ_le_succ (List.takeWhile_prefix _).length_le
  · exact absurd (fractionDigits_of_ne_point hpoint) h

theorem length_wholeDigits_le (t : Text) : (wholeDigits t).length ≤ t.length := by
  unfold wholeDigits
  split
  · simp
  · exact (List.takeWhile_prefix _).length_le

theorem numberToken_append (hu : EndsNumber u) (negative : Bool) (w : Text) :
    numberToken negative (w ++ u) = numberToken negative w := by
  have hwhole : (w ++ u).drop (wholeDigits w).length = w.drop (wholeDigits w).length ++ u :=
    List.drop_append_of_le_length (length_wholeDigits_le w)
  have hfraction : ∀ t : Text, (t ++ u).drop (if (fractionDigits t).isEmpty then 0
        else (fractionDigits t).length + 1) =
      t.drop (if (fractionDigits t).isEmpty then 0 else (fractionDigits t).length + 1) ++ u := by
    intro t
    refine List.drop_append_of_le_length ?_
    split
    · exact Nat.zero_le _
    · rename_i hne
      exact length_fractionDigits_lt (by simpa using hne)
  unfold numberToken
  simp only [wholeDigits_append hu, hwhole, fractionDigits_append hu, hfraction, exponentPart_append hu]

theorem exists_digit_of_numberToken {negative : Bool} {t : Text} {k : Token} {n : Nat}
    (h : numberToken negative t = (k, n)) (hk : k ≠ .fault) : ∃ d s, t = d :: s ∧ isDigit d = true := by
  cases t with
  | nil =>
      obtain ⟨rfl, -⟩ := Prod.mk.inj h
      exact absurd rfl hk
  | cons d s =>
      refine ⟨d, s, rfl, ?_⟩
      by_contra hd
      rw [Bool.not_eq_true] at hd
      have hwhole : wholeDigits (d :: s) = [] := by
        rw [wholeDigits]
        · simp [digitRun, hd]
        · rintro _ heq
          obtain ⟨rfl, -⟩ := List.cons.inj heq
          exact absurd hd (by decide)
      rw [numberToken, hwhole] at h
      obtain ⟨rfl, -⟩ := Prod.mk.inj h
      exact absurd rfl hk

end Numbers

section Tokens

variable {c : CodePoint} {w t : Text} {k : Token}

theorem find?_keywords_append : ∀ p ∈ keywords, ∀ u : Text,
    keywords.find? (fun k => k.1.isPrefixOf (p.1 ++ u)) = some p := by
  intro p hp u
  simp only [keywords, List.mem_cons, List.not_mem_nil, or_false] at hp
  rcases hp with rfl | rfl | rfl | rfl | rfl | rfl <;> rfl

def isScalar : Token → Bool
  | .scalar _ => true
  | _ => false

theorem isScalar_of_numberToken {negative : Bool} {n : Nat} (h : numberToken negative t = (k, n))
    (hk : k ≠ .fault) : isScalar k = true := by
  unfold numberToken at h
  simp only at h
  generalize (if (fractionDigits (t.drop (wholeDigits t).length)).isEmpty then 0
    else (fractionDigits (t.drop (wholeDigits t).length)).length + 1) = fractionLength at h
  split at h
  · exact absurd (Prod.mk.inj h).1.symm hk
  · split at h
    · split at h
      · exact absurd (Prod.mk.inj h).1.symm hk
      · rw [← (Prod.mk.inj h).1]
        rfl
    · rw [← (Prod.mk.inj h).1]
      rfl

theorem tokenAt_append (h : tokenAt c (w ++ t) = (k, w.length)) (hk : k ≠ .fault) {u : Text}
    (ht : isScalar k = true → EndsNumber t) (hu : isScalar k = true → EndsNumber u) :
    tokenAt c (w ++ u) = (k, w.length) := by
  by_cases hp : c ∈ punctuation
  · rw [← h]
    simp only [punctuation, List.mem_cons, List.not_mem_nil, or_false] at hp
    rcases hp with rfl | rfl | rfl | rfl | rfl | rfl <;> simp [tokenAt]
  · by_cases hc : c = '"'
    · subst hc
      exact stringToken_append h hk u
    · rw [tokenAt_of_not_punctuation _ hp hc] at h
      cases hfind : keywords.find? (fun k => k.1.isPrefixOf (c :: (w ++ t))) with
      | some p =>
          rw [hfind, Option.map_some, Option.getD_some] at h
          obtain ⟨hk', hlen⟩ := Prod.mk.inj h
          have hmem := List.mem_of_find?_eq_some hfind
          have hprefix : p.1.isPrefixOf (c :: (w ++ t)) = true :=
            List.find?_some (p := fun k : Text × Token => k.1.isPrefixOf (c :: (w ++ t))) hfind
          have hpos := List.length_pos_iff.mpr (keywords_ne_nil p hmem)
          have hw : p.1 = c :: w := by
            have htake := List.prefix_iff_eq_take.mp (List.isPrefixOf_iff_prefix.mp hprefix)
            have hlen' : p.1.length = w.length + 1 := by omega
            rwa [hlen', List.take_succ_cons, List.take_left] at htake
          have hsame := find?_keywords_append p hmem u
          rw [hw, List.cons_append] at hsame
          rw [tokenAt_of_not_punctuation _ hp hc, hsame, Option.map_some, Option.getD_some, hk', hlen]
      | none =>
          rw [hfind, Option.map_none, Option.getD_none] at h
          split at h
          · rename_i hminus
            obtain rfl : c = '-' := by simpa using hminus
            have hscalar := isScalar_of_numberToken h hk
            have hsame : numberToken true (w ++ u) = (k, w.length) := by
              rw [numberToken_append (hu hscalar), ← numberToken_append (ht hscalar), h]
            obtain ⟨d, s, hd, hdigit⟩ := exists_digit_of_numberToken hsame hk
            have hstart : startsNumber (ch '-' :: (w ++ u)) = true := by
              rw [hd]
              exact hdigit
            rw [tokenAt_minus hstart, hsame]
          · cases hnumber : numberToken false (c :: (w ++ t)) with
            | mk k' m =>
                rw [hnumber] at h
                obtain ⟨rfl, hm⟩ := Prod.mk.inj h
                have hscalar := isScalar_of_numberToken hnumber hk
                obtain ⟨d, s, hd, hdigit⟩ := exists_digit_of_numberToken hnumber hk
                obtain ⟨rfl, -⟩ := List.cons.inj hd
                have hsame : numberToken false (c :: (w ++ u)) = (k', m) := by
                  rw [← List.cons_append, numberToken_append (hu hscalar),
                    ← numberToken_append (ht hscalar), List.cons_append, hnumber]
                rw [tokenAt_digit hdigit, hsame, ← hm]
                rfl

end Tokens

end CodeCompaction.Json
