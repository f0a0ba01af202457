import CodeCompaction.Json.Parse
import CodeCompaction.Proofs.Literal.RoundTrip

namespace CodeCompaction.Json

open CodeCompaction.Text CodeCompaction.Literal

def isBare (c : CodePoint) : Bool := !isQuote c && c != '/' && c != defaultSentinel

section Strings

structure ClosesAt (t : Text) (n : Nat) : Prop where
  le : n ≤ t.length
  quotedEnd_eq : quotedEnd '"' t = n
  sentinel_free : defaultSentinel ∉ t.take n

namespace ClosesAt

variable {t : Text} {n : Nat} {c : CodePoint}

theorem quote (t : Text) : ClosesAt (ch '"' :: t) 1 := by
  refine ⟨by simp, rfl, ?_⟩
  rw [List.take_succ_cons, List.take_zero]
  decide

theorem escape (hc : c ≠ defaultSentinel) (h : ClosesAt t n) : ClosesAt (ch '\\' :: c :: t) (n + 2) := by
  refine ⟨by simpa using h.le, by rw [quotedEnd, h.quotedEnd_eq], ?_⟩
  have hslash : defaultSentinel ≠ '\\' := by decide
  simp [hc.symm, h.sentinel_free, hslash]

theorem char (hquote : c ≠ '"') (hslash : c ≠ '\\') (hline : c ≠ '\n') (hsent : c ≠ defaultSentinel)
    (h : ClosesAt t n) : ClosesAt (c :: t) (n + 1) := by
  refine ⟨by simpa using h.le, ?_, by simp [hsent.symm, h.sentinel_free]⟩
  rw [quotedEnd, if_neg (by simpa using hquote), if_neg (by simpa using hline), h.quotedEnd_eq]
  exact fun _ _ heq => absurd heq hslash

end ClosesAt

theorem not_mem_of_hexNumber? {ds : List CodePoint} {u : Nat} (h : hexNumber? ds = some u) {c : CodePoint}
    (hc : hexValue? c = none) : c ∉ ds := by
  intro hmem
  have hnone : ∀ n, ds.foldlM (fun n d => (hexValue? d).map (16 * n + ·)) n = none := by
    clear h
    induction ds with
    | nil => simp at hmem
    | cons d ds ih =>
        intro n
        rcases List.mem_cons.mp hmem with rfl | hmem
        · simp [hc]
        · simp [ih hmem]
  rw [hexNumber?, hnone] at h
  simp at h

theorem closesAt_hex {w t : Text} {n : Nat} {u : Nat} (hw : hexNumber? w = some u)
    (h : ClosesAt t n) : ClosesAt (w ++ t) (n + w.length) := by
  have hquote := not_mem_of_hexNumber? hw (c := '"') (by decide)
  have hslash := not_mem_of_hexNumber? hw (c := '\\') (by decide)
  have hline := not_mem_of_hexNumber? hw (c := '\n') (by decide)
  have hsent := not_mem_of_hexNumber? hw (c := defaultSentinel) (by decide)
  clear hw
  induction w with
  | nil => exact h
  | cons c w ih =>
      simp only [List.mem_cons, not_or] at hquote hslash hline hsent
      exact .char (Ne.symm hquote.1) (Ne.symm hslash.1) (Ne.symm hline.1) (Ne.symm hsent.1)
        (ih hquote.2 hslash.2 hline.2 hsent.2)

theorem closesAt_of_stringUnits {t : Text} {us : List Written} {n : Nat}
    (h : stringUnits t = some (us, n)) : ClosesAt t n := by
  fun_induction stringUnits t generalizing us n with
  | case1 => simp at h
  | case2 cs =>
      obtain ⟨-, rfl⟩ := Prod.mk.inj (Option.some.inj h)
      exact .quote cs
  | case3 a b c d cs ih =>
      -- the shield skips the `u` only, so none of the four digits may end the literal
      simp only [Option.bind_eq_bind, Option.bind_eq_some_iff, Option.some.injEq, Prod.mk.injEq,
        Prod.exists] at h
      obtain ⟨u, hu, vs, k, hcs, -, rfl⟩ := h
      have hhex : ClosesAt (a :: b :: c :: d :: cs) (k + 4) := closesAt_hex hu (ih hcs)
      exact hhex.escape (by decide)
  | case4 e cs _ ih =>
      simp only [Option.bind_eq_bind, Option.bind_eq_some_iff, Option.some.injEq, Prod.mk.injEq,
        Prod.exists] at h
      obtain ⟨u, hu, vs, k, hcs, -, rfl⟩ := h
      refine (ih hcs).escape ?_
      rintro rfl
      have hlookup : shortEscapes.lookup defaultSentinel = none := by decide
      rw [hlookup] at hu
      simp at hu
  | case5 c cs _ _ _ _ => simp at h
  | case6 c cs hquote _ _ hplain ih =>
      simp only [Option.map_eq_some_iff, Prod.mk.injEq, Prod.exists] at h
      obtain ⟨vs, k, hcs, -, rfl⟩ := h
      simp only [Bool.or_eq_true, decide_eq_true_eq, beq_iff_eq, not_or, Nat.not_lt] at hplain
      refine (ih hcs).char hquote hplain.2 ?_ ?_ <;> rintro rfl <;> exact absurd hplain.1 (by decide)

end Strings

section Numbers

def isNumeral (c : CodePoint) : Bool := isDigit c || c == '.' || c == '-' || c == '+' || c == 'e' || c == 'E'

theorem isBare_of_isNumeral {c : CodePoint} (h : isNumeral c = true) : isBare c = true := by
  rw [isBare, Bool.and_eq_true, Bool.and_eq_true, Bool.not_eq_true', bne_iff_ne, bne_iff_ne,
    Bool.eq_false_iff]
  refine ⟨⟨fun hq => ?_, ?_⟩, ?_⟩
  · simp only [isQuote, Bool.or_eq_true, beq_iff_eq] at hq
    rcases hq with (rfl | rfl) | rfl <;> revert h <;> decide
  · rintro rfl
    revert h
    decide
  · rintro rfl
    revert h
    decide

def exponentSign (t : Text) : Text :=
  match t with
  | ch '-' :: _ => [ch '-']
  | ch '+' :: _ => [ch '+']
  | _ => []

theorem exponentPart_cons (e : CodePoint) (cs : Text) : exponentPart (e :: cs) =
    if e == 'e' || e == 'E' then
      if (digitRun (cs.drop (exponentSign cs).length)).isEmpty then none
      else
        some (if exponentSign cs == [ch '-'] then -(digitsValue (digitRun (cs.drop (exponentSign cs).length)) : Int)
            else (digitsValue (digitRun (cs.drop (exponentSign cs).length)) : Int),
          1 + (exponentSign cs).length + (digitRun (cs.drop (exponentSign cs).length)).length)
    else none := rfl

def Numeric (t : Text) (n : Nat) : Prop := ∀ c ∈ t.take n, isNumeral c = true

namespace Numeric

variable {t : Text} {c : CodePoint} {m n : Nat}

theorem zero (t : Text) : Numeric t 0 := by simp [Numeric]

theorem add (h : Numeric t m) (h' : Numeric (t.drop m) n) : Numeric t (m + n) := by
  intro c hc
  rw [List.take_add, List.mem_append] at hc
  exact hc.elim (h c) (h' c)

theorem cons (hc : isNumeral c = true) (h : Numeric t n) : Numeric (c :: t) (n + 1) := by
  intro d hd
  rw [List.take_succ_cons, List.mem_cons] at hd
  rcases hd with rfl | hd
  · exact hc
  · exact h d hd

theorem digitRun (t : Text) : Numeric t (digitRun t).length := by
  intro c hc
  have htake : t.take (Json.digitRun t).length = Json.digitRun t :=
    (List.prefix_iff_eq_take.mp (List.takeWhile_prefix _)).symm
  rw [htake] at hc
  simp [isNumeral, List.mem_takeWhile_imp hc]

theorem wholeDigits (t : Text) : Numeric t (wholeDigits t).length := by
  unfold Json.wholeDigits
  split
  · exact .cons (by decide) (.zero _)
  · exact .digitRun t

theorem fraction (t : Text) : Numeric t
    (if (fractionDigits t).isEmpty then 0 else (fractionDigits t).length + 1) := by
  split
  · exact .zero t
  · rename_i hne
    unfold fractionDigits at hne ⊢
    split
    · exact .cons (by decide) (.digitRun _)
    · simp at hne

theorem sign (t : Text) : Numeric t (exponentSign t).length := by
  unfold exponentSign
  split
  · exact .cons (by decide) (.zero _)
  · exact .cons (by decide) (.zero _)
  · exact .zero t

theorem exponent {x : Int} (h : exponentPart t = some (x, n)) : Numeric t n := by
  cases t with
  | nil => simp [exponentPart] at h
  | cons e cs =>
      rw [exponentPart_cons] at h
      split at h
      · rename_i he
        split at h
        · simp at h
        · obtain ⟨-, rfl⟩ := Prod.mk.inj (Option.some.inj h)
          have he' : isNumeral e = true := by
            rcases Bool.or_eq_true_iff.mp he with he | he <;> simp [isNumeral, he]
          rw [Nat.add_assoc, Nat.add_comm 1]
          exact .cons he' ((Numeric.sign cs).add (.digitRun _))
      · simp at h

end Numeric

theorem numberToken_numeric {negative : Bool} {t : Text} {k : Token} {n : Nat}
    (h : numberToken negative t = (k, n)) : Numeric t n ∧ (k ≠ .fault → 0 < n) := by
  have hwhole := Numeric.wholeDigits t
  have hfraction := Numeric.fraction (t.drop (wholeDigits t).length)
  unfold numberToken at h
  simp only at h
  generalize (if (fractionDigits (t.drop (wholeDigits t).length)).isEmpty then 0
    else (fractionDigits (t.drop (wholeDigits t).length)).length + 1) = fractionLength at h hfraction
  have hupto := hwhole.add hfraction
  generalize hexp : exponentPart ((t.drop (wholeDigits t).length).drop fractionLength) = exponent? at h
  rw [List.drop_drop] at hexp
  split at h
  · obtain ⟨rfl, rfl⟩ := Prod.mk.inj h
    exact ⟨.zero t, fun hk => absurd rfl hk⟩
  · rename_i hne
    have hpos : 0 < (wholeDigits t).length := by
      rw [List.length_pos_iff]
      simpa using hne
    split at h
    · split at h
      · obtain ⟨rfl, rfl⟩ := Prod.mk.inj h
        exact ⟨.zero t, fun hk => absurd rfl hk⟩
      · obtain ⟨-, rfl⟩ := Prod.mk.inj h
        exact ⟨hwhole, fun _ => hpos⟩
    · obtain ⟨-, rfl⟩ := Prod.mk.inj h
      refine ⟨?_, fun _ => by omega⟩
      cases exponent? with
      | none => exact hupto
      | some x => exact hupto.add (.exponent hexp)

end Numbers

section Tokens

def punctuation : Text := [ch '[', ']', '\x7b', '\x7d', ',', ':']

theorem tokenAt_of_not_punctuation {c : CodePoint} (cs : Text) (hp : c ∉ punctuation) (hc : c ≠ '"') :
    tokenAt c cs =
      ((keywords.find? (fun k => k.1.isPrefixOf (c :: cs))).map (fun k => (k.2, k.1.length - 1))).getD
        (if c == '-' then numberToken true cs else (numberToken false (c :: cs)).map id (· - 1)) := by
  simp only [punctuation, List.mem_cons, List.not_mem_nil, or_false, not_or] at hp
  obtain ⟨h₁, h₂, h₃, h₄, h₅, h₆⟩ := hp
  rw [tokenAt, if_neg (by simpa using h₁), if_neg (by simpa using h₂), if_neg (by simpa using h₃),
    if_neg (by simpa using h₄), if_neg (by simpa using h₅), if_neg (by simpa using h₆),
    if_neg (by simpa using hc)]
  cases keywords.find? (fun k => k.1.isPrefixOf (c :: cs)) <;> rfl

theorem keywords_ne_nil : ∀ p ∈ keywords, p.1 ≠ [] := by
  have hall : keywords.all (fun p => !p.1.isEmpty) = true := by decide
  intro p hp
  simpa using List.all_eq_true.mp hall p hp

theorem tokenAt_forall {q : CodePoint → Bool} (hpunct : punctuation.all q = true)
    (hword : keywords.all (fun p => p.1.all q) = true) (hnum : ∀ d, isNumeral d = true → q d = true)
    {c : CodePoint} {cs : Text} {k : Token} {n : Nat} (h : tokenAt c cs = (k, n)) (hk : k ≠ .fault)
    (hc : c ≠ '"') : q c = true ∧ ∀ d ∈ cs.take n, q d = true := by
  by_cases hp : c ∈ punctuation
  · have hn : n = 0 := by
      simp only [punctuation, List.mem_cons, List.not_mem_nil, or_false] at hp
      rcases hp with rfl | rfl | rfl | rfl | rfl | rfl <;> simpa [tokenAt] using (congrArg Prod.snd h).symm
    exact ⟨List.all_eq_true.mp hpunct c hp, by simp [hn]⟩
  · rw [tokenAt_of_not_punctuation cs hp hc] at h
    cases hfind : keywords.find? (fun k => k.1.isPrefixOf (c :: cs)) with
    | some p =>
        obtain ⟨w, k'⟩ := p
        rw [hfind, Option.map_some, Option.getD_some] at h
        obtain ⟨-, rfl⟩ := Prod.mk.inj h
        have hmem := List.mem_of_find?_eq_some hfind
        have hall := List.all_eq_true.mp (List.all_eq_true.mp hword _ hmem)
        have hprefix : w.isPrefixOf (c :: cs) = true :=
          List.find?_some (p := fun k : Text × Token => k.1.isPrefixOf (c :: cs)) hfind
        obtain ⟨d, w', rfl⟩ := List.exists_cons_of_ne_nil (keywords_ne_nil _ hmem)
        obtain ⟨r, hr⟩ := List.isPrefixOf_iff_prefix.mp hprefix
        obtain ⟨rfl, rfl⟩ := List.cons.inj hr
        refine ⟨hall d (List.mem_cons_self ..), fun e he => hall e (List.mem_cons_of_mem _ ?_)⟩
        simpa using he
    | none =>
        rw [hfind, Option.map_none, Option.getD_none] at h
        split at h
        · rename_i hminus
          obtain rfl : c = '-' := by simpa using hminus
          exact ⟨hnum _ (by decide), fun d hd => hnum d ((numberToken_numeric h).1 d hd)⟩
        · cases hnumber : numberToken false (c :: cs) with
          | mk k' m =>
              rw [hnumber] at h
              obtain ⟨rfl, rfl⟩ := Prod.mk.inj h
              obtain ⟨hnumeric, hpos⟩ := numberToken_numeric hnumber
              obtain ⟨m, rfl⟩ := Nat.exists_eq_succ_of_ne_zero (hpos hk).ne'
              exact ⟨hnum c (hnumeric c (by simp)), fun d hd => hnum d (hnumeric d (by simpa using .inr hd))⟩

theorem tokenAt_bare {c : CodePoint} {cs : Text} {k : Token} {n : Nat} (h : tokenAt c cs = (k, n))
    (hk : k ≠ .fault) (hc : c ≠ '"') : isBare c = true ∧ ∀ d ∈ cs.take n, isBare d = true :=
  tokenAt_forall (by decide) (by decide) (fun _ => isBare_of_isNumeral) h hk hc

theorem tokensFrom_eq_drop (n : Nat) (t : Text) : tokensFrom n t = tokens (t.drop n) := by
  induction t generalizing n with
  | nil => cases n <;> rfl
  | cons c t ih =>
      cases n with
      | zero => rfl
      | succ n => exact ih n

theorem tokens_cons_of_not_space {c : CodePoint} (hc : isSpace c = false) {cs : Text} {k : Token} {n : Nat}
    (h : tokenAt c cs = (k, n)) (hk : k ≠ .fault) : tokens (c :: cs) = k :: tokens (cs.drop n) := by
  rw [tokens, tokensFrom, hc, if_neg Bool.false_ne_true, h, ← tokensFrom_eq_drop]
  cases k <;> first | rfl | exact absurd rfl hk

theorem tokens_cons_of_fault {c : CodePoint} (hc : isSpace c = false) {cs : Text} {n : Nat}
    (h : tokenAt c cs = (.fault, n)) : tokens (c :: cs) = [.fault] := by
  rw [tokens, tokensFrom, hc, if_neg Bool.false_ne_true, h]

theorem closesAt_of_stringToken {cs : Text} {k : Token} {n : Nat} (h : stringToken cs = (k, n))
    (hk : k ≠ .fault) : ClosesAt cs n := by
  unfold stringToken at h
  split at h
  · exact absurd (Prod.mk.inj h).1.symm hk
  · rename_i us m hunits
    exact (Prod.mk.inj h).2 ▸ closesAt_of_stringUnits hunits

theorem isBare_of_isSpace {c : CodePoint} (h : isSpace c = true) : isBare c = true := by
  simp only [isSpace, Bool.or_eq_true, beq_iff_eq] at h
  rcases h with ((rfl | rfl) | rfl) | rfl <;> decide

end Tokens

inductive Legible : Text → Prop where
  | nil : Legible []
  | bare {c : CodePoint} {t : Text} (hc : isBare c = true) : Legible t → Legible (c :: t)
  | string {w t : Text} (hw : ClosesAt (w ++ t) w.length) : Legible t → Legible (ch '"' :: (w ++ t))

namespace Legible

variable {t : Text}

theorem bare_append {w : Text} (hw : ∀ c ∈ w, isBare c = true) (h : Legible t) : Legible (w ++ t) := by
  induction w with
  | nil => exact h
  | cons c w ih =>
      exact .bare (hw c (List.mem_cons_self ..)) (ih (fun d hd => hw d (List.mem_cons_of_mem _ hd)))

theorem isBare_of_plain_mem (h : Legible t) {c : CodePoint} (hc : Piece.plain c ∈ split false t) :
    isBare c = true := by
  induction h with
  | nil => simp [split] at hc
  | @bare d t hd _ ih =>
      have hquote : isQuote d = false := by
        simp only [isBare, Bool.and_eq_true, Bool.not_eq_true'] at hd
        exact hd.1.1
      rw [split, if_neg (by simp [hquote])] at hc
      rcases List.mem_cons.mp hc with heq | hc
      · exact Piece.plain.inj heq ▸ hd
      · exact ih hc
  | @string w t hw _ ih =>
      have hbody : bodyLength false '"' (w ++ t) = w.length := hw.quotedEnd_eq
      rw [split, if_pos (by decide), hbody] at hc
      simp only [List.drop_left] at hc
      exact ih (by simpa using hc)

theorem sentinel_not_mem (h : Legible t) : defaultSentinel ∉ t := by
  induction h with
  | nil => exact List.not_mem_nil
  | @bare c t hc _ ih =>
      have hne : c ≠ defaultSentinel := by
        simp only [isBare, Bool.and_eq_true, bne_iff_ne] at hc
        exact hc.2
      exact List.not_mem_cons_of_ne_of_not_mem hne.symm ih
  | @string w t hw _ ih =>
      have hfree := hw.sentinel_free
      rw [List.take_left] at hfree
      refine List.not_mem_cons_of_ne_of_not_mem (by decide) ?_
      rw [List.mem_append]
      exact fun hm => hm.elim hfree ih

theorem of_tokens (h : Token.fault ∉ tokens t) : Legible t := by
  -- on the length, since one token takes many characters
  induction hn : t.length using Nat.strong_induction_on generalizing t with
  | _ n ih =>
      cases t with
      | nil => exact .nil
      | cons c cs =>
          by_cases hspace : isSpace c = true
          · rw [tokens_space hspace] at h
            exact .bare (isBare_of_isSpace hspace) (ih cs.length (by simp [← hn]) h rfl)
          · rw [Bool.not_eq_true] at hspace
            cases hat : tokenAt c cs with
            | mk k m =>
                by_cases hk : k = .fault
                · rw [hk] at hat
                  rw [tokens_cons_of_fault hspace hat] at h
                  exact absurd (List.mem_singleton_self _) h
                · rw [tokens_cons_of_not_space hspace hat hk] at h
                  have hrest : Legible (cs.drop m) :=
                    ih (cs.drop m).length (by simp [← hn]) (List.not_mem_of_not_mem_cons h) rfl
                  by_cases hquote : c = '"'
                  · subst hquote
                    have hcloses : ClosesAt cs m := closesAt_of_stringToken hat hk
                    rw [← List.take_append_drop m cs]
                    refine .string ?_ hrest
                    rw [List.take_append_drop, List.length_take_of_le hcloses.le]
                    exact hcloses
                  · obtain ⟨hc, htake⟩ := tokenAt_bare hat hk hquote
                    rw [← List.take_append_drop m cs]
                    exact .bare hc (hrest.bare_append htake)

end Legible

section Accepted

variable {limit : NestingLimit} {specials : Bool} {t : Text}

theorem read_fault (r : Reading) : read limit specials r .fault = .error .malformed := by
  cases r with
  | complete v => rfl
  | within fs next =>
      cases next with
      | separator =>
          cases fs with
          | nil => rfl
          | cons f fs => cases f <;> rfl
      | name =>
          cases fs with
          | nil => rfl
          | cons f fs => cases f <;> rfl
      | nameOrClose =>
          cases fs with
          | nil => rfl
          | cons f fs => cases f <;> rfl
      | _ => rfl

theorem exists_read_of_readAll {r r' : Reading} {k : Token} {ks : List Token}
    (h : readAll limit specials r (k :: ks) = .ok r') :
    ∃ r₁, read limit specials r k = .ok r₁ ∧ readAll limit specials r₁ ks = .ok r' := by
  rw [readAll, List.foldlM_cons] at h
  cases hread : read limit specials r k with
  | error e =>
      rw [hread] at h
      exact absurd h (by simp [bind, Except.bind])
  | ok r₁ =>
      rw [hread] at h
      exact ⟨r₁, rfl, h⟩

theorem fault_not_mem_of_readAll {r r' : Reading} {ks : List Token}
    (h : readAll limit specials r ks = .ok r') : Token.fault ∉ ks := by
  induction ks generalizing r with
  | nil => exact List.not_mem_nil
  | cons k ks ih =>
      obtain ⟨r₁, hread, h⟩ := exists_read_of_readAll h
      refine List.not_mem_cons_of_ne_of_not_mem ?_ (ih h)
      rintro rfl
      rw [read_fault] at hread
      simp at hread

theorem legible_of_parse {v : Value} (h : parse limit specials t = .ok v) : Legible t := by
  rw [parse] at h
  cases hread : readAll limit specials start (tokens t) with
  | error e =>
      rw [hread] at h
      exact absurd h (by simp [bind, Except.bind])
  | ok r => exact .of_tokens (fault_not_mem_of_readAll hread)

theorem exists_shield?_of_sentinel_free (h : defaultSentinel ∉ t) (triple : Bool) :
    ∃ s, shield? triple t = some s := by
  rw [← Option.ne_none_iff_exists']
  intro hnone
  exact h ((shield?_eq_none_iff.mp hnone).2 _ (by decide))

theorem exists_shield?_of_legible (h : Legible t) (triple : Bool) : ∃ s, shield? triple t = some s :=
  exists_shield?_of_sentinel_free h.sentinel_not_mem triple

theorem slash_not_mem_shielded (h : Legible t) {s : Shielded} (hs : shield? false t = some s) :
    ch '/' ∉ s.text := by
  have hshields := shields_of_shield? hs
  rw [hshields.text_eq]
  intro hm
  rcases (mem_fill _).mp hm with hchar | ⟨i, -, hmem⟩
  · have hbare := h.isBare_of_plain_mem (char_mem_number hchar)
    exact absurd hbare (by decide)
  · have halpha := (s.hides_seat hshields.sentinel_mem id i).2 _ hmem
    exact absurd halpha (by decide)

end Accepted

end CodeCompaction.Json
