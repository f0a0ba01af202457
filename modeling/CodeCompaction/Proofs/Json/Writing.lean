import CodeCompaction.Json.Print
import CodeCompaction.Proofs.Json.Lexing

namespace CodeCompaction.Json

open CodeCompaction.Text CodeCompaction.Number

def LexesAs (l : Text) (k : Token) (t : Text) : Prop :=
  ∃ c w, l = c :: w ∧ isSpace c = false ∧ tokenAt c (w ++ t) = (k, w.length)

theorem LexesAs.tokens_eq {l t : Text} {k : Token} (h : LexesAs l k t) (hk : k ≠ .fault) :
    tokens (l ++ t) = k :: tokens t := by
  obtain ⟨c, w, rfl, hc, hat⟩ := h
  rw [List.cons_append, tokens_cons_of_not_space hc hat hk, List.drop_left]

section Strings

theorem hexPadded_control : ∀ n < 32,
    (hexPadded 4 n).length = 4 ∧ hexNumber? (hexPadded 4 n) = some n := by decide

theorem stringUnits_unicode {w t : Text} {u : Nat} (hlen : w.length = 4) (hw : hexNumber? w = some u) :
    stringUnits (ch '\\' :: ch 'u' :: (w ++ t)) =
      (stringUnits t).map (fun (us, n) => (.unit u :: us, n + 6)) := by
  match w, hlen with
  | [a, b, c, d], _ =>
      simp only [List.cons_append, List.nil_append, stringUnits, hw]
      cases stringUnits t <;> rfl

theorem stringUnits_plain {c : CodePoint} (hquote : c ≠ '"') (hslash : c ≠ '\\') (hc : 0x20 ≤ c.toNat)
    (t : Text) : stringUnits (c :: t) =
      (stringUnits t).map (fun (us, n) => (.plain c :: us, n + 1)) := by
  rw [stringUnits, if_neg (by simp [hslash, hc])]
  · exact hquote
  · exact fun _ _ _ _ _ heq => absurd heq hslash
  · exact fun _ _ heq => absurd heq hslash

theorem stringUnits_short {e : CodePoint} {u : Nat} (hu : e ≠ 'u') (he : shortEscapes.lookup e = some u)
    (t : Text) : stringUnits (ch '\\' :: e :: t) =
      (stringUnits t).map (fun (us, n) => (.unit u :: us, n + 2)) := by
  rw [stringUnits, he]
  · cases stringUnits t <;> rfl
  · exact fun _ _ _ _ _ h => absurd h hu

def isEscaped (c : CodePoint) : Bool := c == '"' || c == '\\' || c.toNat < 0x20

def spelled (c : CodePoint) : Written := if isEscaped c then .unit c.toNat else .plain c

theorem stringUnits_escapedChar (c : CodePoint) (t : Text) : stringUnits (escapedChar c ++ t) =
    (stringUnits t).map (fun (us, n) => (spelled c :: us, n + (escapedChar c).length)) := by
  have hquote := stringUnits_short (e := '"') (u := 0x22) (by decide) (by decide) t
  have hslash := stringUnits_short (e := '\\') (u := 0x5C) (by decide) (by decide) t
  have hline := stringUnits_short (e := 'n') (u := 0x0A) (by decide) (by decide) t
  have hreturn := stringUnits_short (e := 'r') (u := 0x0D) (by decide) (by decide) t
  have htab := stringUnits_short (e := 't') (u := 0x09) (by decide) (by decide) t
  have hback := stringUnits_short (e := 'b') (u := 0x08) (by decide) (by decide) t
  have hfeed := stringUnits_short (e := 'f') (u := 0x0C) (by decide) (by decide) t
  unfold escapedChar
  split_ifs with h₁ h₂ h₃ h₄ h₅ h₆ h₇ h₈
  · obtain rfl : c = '"' := by simpa using h₁
    exact hquote
  · obtain rfl : c = '\\' := by simpa using h₂
    exact hslash
  · obtain rfl : c = '\n' := by simpa using h₃
    exact hline
  · obtain rfl : c = '\r' := by simpa using h₄
    exact hreturn
  · obtain rfl : c = '\t' := by simpa using h₅
    exact htab
  · obtain rfl : c = '\x08' := by simpa using h₆
    exact hback
  · obtain rfl : c = '\x0c' := by simpa using h₇
    exact hfeed
  · obtain ⟨hlen, hhex⟩ := hexPadded_control c.toNat h₈
    have hspelled : spelled c = .unit c.toNat := by simp [spelled, isEscaped, h₈]
    rw [List.cons_append, List.cons_append, stringUnits_unicode hlen hhex, List.length_cons,
      List.length_cons, hlen, hspelled]
  · have hspelled : spelled c = .plain c := by simp [spelled, isEscaped, h₁, h₂, h₈]
    rw [hspelled]
    exact stringUnits_plain (by simpa using h₁) (by simpa using h₂) (Nat.not_lt.mp h₈) t

theorem stringUnits_written (t rest : Text) : stringUnits (t.flatMap escapedChar ++ ch '"' :: rest) =
    some (t.map spelled, (t.flatMap escapedChar).length + 1) := by
  induction t with
  | nil => rfl
  | cons c t ih =>
      rw [List.flatMap_cons, List.append_assoc, stringUnits_escapedChar, ih, List.length_append]
      simp only [Option.map_some, List.map_cons, Option.some.injEq, Prod.mk.injEq, true_and]
      omega

theorem ofUnits_unit_cons {u : Nat} (hu : isHighUnit u = false) (us : List Written) :
    ofUnits (.unit u :: us) = CodePoint.ofNat u :: ofUnits us := by
  cases us with
  | nil => rfl
  | cons x us => cases x <;> simp [ofUnits, hu]

theorem isHighUnit_of_isEscaped {c : CodePoint} (h : isEscaped c = true) : isHighUnit c.toNat = false := by
  simp only [isEscaped, Bool.or_eq_true, beq_iff_eq, decide_eq_true_eq] at h
  rcases h with (rfl | rfl) | h
  · rfl
  · rfl
  · simp only [isHighUnit, Bool.and_eq_false_iff, decide_eq_false_iff_not]
    omega

theorem ofUnits_map_spelled (t : Text) : ofUnits (t.map spelled) = t := by
  induction t with
  | nil => rfl
  | cons c t ih =>
      rw [List.map_cons, spelled]
      split
      · rename_i hc
        rw [ofUnits_unit_cons (isHighUnit_of_isEscaped hc), ih, CodePoint.ofNat_toNat]
      · rw [ofUnits, ih]

theorem lexesAs_stringText (t rest : Text) : LexesAs (stringText t) (.text t) rest := by
  refine ⟨'"', t.flatMap escapedChar ++ [ch '"'], rfl, by decide, ?_⟩
  rw [List.append_assoc, List.length_append]
  change stringToken _ = _
  rw [stringToken, List.singleton_append, stringUnits_written]
  simp only [ofUnits_map_spelled]
  rfl

theorem tokens_stringText (t rest : Text) : tokens (stringText t ++ rest) = .text t :: tokens rest :=
  (lexesAs_stringText t rest).tokens_eq (by simp)

end Strings

section Numbers

def closers : Text := [ch ',', ']', '\x7d']

def EndsValue (t : Text) : Prop := ∀ c ∈ t.head?, c ∈ closers

theorem isDigit_of_mem_decimal {n : Nat} {c : CodePoint} (h : c ∈ decimal n) : isDigit c = true := by
  obtain ⟨a, hdigit, rfl⟩ := exists_of_mem_decimal h
  obtain ⟨hlo, hhi⟩ := Char.isDigit_iff_toNat.mp hdigit
  simp only [isDigit, Bool.and_eq_true, decide_eq_true_eq]
  exact ⟨hlo, hhi⟩

theorem digitsValue_decimal (n : Nat) : digitsValue (decimal n) = n := by
  rw [digitsValue, decimal, List.foldl_map]
  exact (Nat.ofDigitChars_eq_foldl ..).symm.trans Nat.ofDigitChars_ten_toDigits

theorem head_decimal_ne_zero {n : Nat} (hn : n ≠ 0) : (decimal n).head? ≠ some (ch '0') := by
  have hdigits : (Nat.toDigits 10 n).head? ≠ some '0' := by
    induction n using Nat.strong_induction_on with
    | _ n ih =>
        rw [Nat.toDigits_eq_if (by decide)]
        split
        · rename_i hlt
          have hall : ∀ d < 10, d ≠ 0 → (some d.digitChar : Option Char) ≠ some '0' := by decide
          exact hall n hlt hn
        · have hdiv := ih (n / 10) (by omega) (by omega)
          rw [List.head?_append_of_ne_nil _ Nat.toDigits_ne_nil]
          exact hdiv
  rw [decimal, List.head?_map]
  simpa using hdigits

section Behind

variable {t : Text}

theorem EndsValue.cases (h : EndsValue t) :
    t = [] ∨ ∃ u, t = ch ',' :: u ∨ t = ch ']' :: u ∨ t = ch '\x7d' :: u := by
  cases t with
  | nil => exact .inl rfl
  | cons c u =>
      have hc : c = ',' ∨ c = ']' ∨ c = '\x7d' := by simpa [closers] using h c rfl
      exact .inr ⟨u, by simpa using hc⟩

theorem digitRun_append_of_endsValue {ds : Text} (hds : ∀ d ∈ ds, isDigit d = true) (h : EndsValue t) :
    digitRun (ds ++ t) = ds := by
  have ht : digitRun t = [] := by
    rcases h.cases with rfl | ⟨u, rfl | rfl | rfl⟩ <;> rfl
  rw [digitRun] at ht ⊢
  rw [List.takeWhile_append_of_pos hds, ht, List.append_nil]

theorem fractionDigits_of_endsValue (h : EndsValue t) : fractionDigits t = [] := by
  rcases h.cases with rfl | ⟨u, rfl | rfl | rfl⟩ <;> rfl

theorem exponentPart_of_endsValue (h : EndsValue t) : exponentPart t = none := by
  rcases h.cases with rfl | ⟨u, rfl | rfl | rfl⟩ <;> rfl

theorem wholeDigits_decimal (n : Nat) (h : EndsValue t) : wholeDigits (decimal n ++ t) = decimal n := by
  have hdigits : ∀ d ∈ decimal n, isDigit d = true := fun d hd => isDigit_of_mem_decimal hd
  by_cases hn : n = 0
  · rw [hn]
    rfl
  · obtain ⟨d, ds, hd⟩ := List.exists_cons_of_ne_nil (decimal_ne_nil n)
    have hzero : d ≠ '0' := by
      have := head_decimal_ne_zero hn
      rw [hd, List.head?_cons] at this
      exact fun heq => this (congrArg some heq)
    have hrun := digitRun_append_of_endsValue hdigits h
    rw [hd, List.cons_append] at hrun ⊢
    rw [wholeDigits, hrun]
    exact fun _ heq => hzero (List.cons.inj heq).1

theorem numberToken_decimal {n : Nat} (hlen : (decimal n).length ≤ maxDigits) (h : EndsValue t)
    (negative : Bool) : numberToken negative (decimal n ++ t) =
      (.scalar (.int (if negative then -(n : Int) else n)), (decimal n).length) := by
  have hne : (decimal n).isEmpty = false := by
    simpa using decimal_ne_nil n
  rw [numberToken]
  simp only [wholeDigits_decimal n h, hne, Bool.false_eq_true, if_false, List.drop_left,
    fractionDigits_of_endsValue h, List.isEmpty_nil, if_true, List.drop_zero,
    exponentPart_of_endsValue h, Option.isNone_none, Bool.and_self, Nat.not_lt.mpr hlen,
    digitsValue_decimal]

def startsNumber : Text → Bool
  | ch '-' :: d :: _ => isDigit d
  | d :: _ => isDigit d
  | [] => false

theorem startsNumber_of_ne_minus {d : CodePoint} (hd : d ≠ '-') (t : Text) :
    startsNumber (d :: t) = isDigit d := by
  rw [startsNumber]
  exact fun _ _ heq => absurd heq hd

theorem startsNumber_append {w : Text} (hw : 2 ≤ w.length) (t : Text) :
    startsNumber (w ++ t) = startsNumber w := by
  match w, hw with
  | c :: d :: w, _ =>
      by_cases hc : c = '-'
      · rw [hc]
        rfl
      · rw [List.cons_append, startsNumber_of_ne_minus hc, startsNumber_of_ne_minus hc]

theorem find?_keywords_of_startsNumber (h : startsNumber t = true) :
    keywords.find? (fun k => k.1.isPrefixOf t) = none := by
  have hwords : keywords.all (fun p => 2 ≤ p.1.length && !startsNumber p.1) = true := by decide +kernel
  rw [List.find?_eq_none]
  intro p hp hprefix
  obtain ⟨r, rfl⟩ := List.isPrefixOf_iff_prefix.mp hprefix
  have hword := List.all_eq_true.mp hwords p hp
  obtain ⟨hlen, hstart⟩ : 2 ≤ p.1.length ∧ startsNumber p.1 = false := by
    simpa using List.all_eq_true.mp hwords p hp
  rw [startsNumber_append hlen, hstart] at h
  exact Bool.false_ne_true h

theorem not_isDigit_of_punctuation : ∀ c ∈ punctuation, isDigit c = false := by
  have hall : punctuation.all (fun c => !isDigit c) = true := by decide
  intro c hc
  simpa using List.all_eq_true.mp hall c hc

theorem isSpace_of_isDigit {d : CodePoint} (hd : isDigit d = true) : isSpace d = false := by
  rw [Bool.eq_false_iff]
  intro h
  simp only [isSpace, Bool.or_eq_true, beq_iff_eq] at h
  rcases h with ((rfl | rfl) | rfl) | rfl <;> revert hd <;> decide

theorem tokenAt_minus {ds : Text} (h : startsNumber (ch '-' :: ds) = true) :
    tokenAt '-' ds = numberToken true ds := by
  rw [tokenAt_of_not_punctuation ds (by decide) (by decide), find?_keywords_of_startsNumber h]
  rfl

theorem tokenAt_digit {d : CodePoint} (hd : isDigit d = true) (ds : Text) : tokenAt d ds =
    ((numberToken false (d :: ds)).1, (numberToken false (d :: ds)).2 - 1) := by
  have hminus : d ≠ '-' := by
    rintro rfl
    exact absurd hd (by decide)
  have hquote : d ≠ '"' := by
    rintro rfl
    exact absurd hd (by decide)
  have hpunct : d ∉ punctuation := fun hm => by simp [not_isDigit_of_punctuation d hm] at hd
  have hstart : startsNumber (d :: ds) = true := (startsNumber_of_ne_minus hminus ds).trans hd
  rw [tokenAt_of_not_punctuation ds hpunct hquote, find?_keywords_of_startsNumber hstart]
  rw [Option.map_none, Option.getD_none, if_neg (by simpa using hminus)]
  rfl

theorem lexesAs_signed {i : Int} (hlen : (decimal i.natAbs).length ≤ maxDigits) (h : EndsValue t) :
    LexesAs (signed i) (.scalar (.int i)) t := by
  obtain ⟨d, ds, hdec⟩ := List.exists_cons_of_ne_nil (decimal_ne_nil i.natAbs)
  have hd : isDigit d = true := isDigit_of_mem_decimal (hdec ▸ List.mem_cons_self ..)
  rw [signed]
  split
  · rename_i hneg
    have hstart : startsNumber (ch '-' :: (decimal i.natAbs ++ t)) = true := by
      rw [hdec]
      exact hd
    have hi : -(i.natAbs : Int) = i := by omega
    refine ⟨'-', decimal i.natAbs, rfl, by decide, ?_⟩
    rw [tokenAt_minus hstart, numberToken_decimal hlen h, if_pos rfl, hi]
  · rename_i hpos
    have hnumber := numberToken_decimal hlen h false
    have hi : (i.natAbs : Int) = i := by omega
    rw [hdec, List.cons_append] at hnumber
    refine ⟨d, ds, hdec, isSpace_of_isDigit hd, ?_⟩
    rw [tokenAt_digit hd, hnumber, if_neg Bool.false_ne_true, hi]
    rfl

theorem tokens_signed {i : Int} (hlen : (decimal i.natAbs).length ≤ maxDigits) (h : EndsValue t) :
    tokens (signed i ++ t) = .scalar (.int i) :: tokens t :=
  (lexesAs_signed hlen h).tokens_eq (by simp)

end Behind

end Numbers

end CodeCompaction.Json
