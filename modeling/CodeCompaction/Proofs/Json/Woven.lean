import CodeCompaction.Proofs.Json.Locality
import CodeCompaction.Proofs.Literal.Standing

namespace CodeCompaction.Json

open CodeCompaction.Text CodeCompaction.Literal

def isRemark (c : CodePoint) : Bool := isBare c && c != '*'

/-- The tokens of the first text stand in the second one in their order, with blanks in between and, where
`blocks` and `lines` admit them, comments. A comment of the second kind ends with its line. -/
inductive Woven (blocks lines : Bool) : Text → Text → Prop where
  | nil : Woven blocks lines [] []
  | token {c : CodePoint} {w t u : Text} {k : Token} (hc : isSpace c = false)
      (hat : tokenAt c (w ++ t) = (k, w.length)) (hk : k ≠ .fault) :
      Woven blocks lines t u → Woven blocks lines (c :: (w ++ t)) (c :: (w ++ u))
  | blank {c : CodePoint} {t u : Text} (hc : isSpace c = true) :
      Woven blocks lines t u → Woven blocks lines t (c :: u)
  | spared {c : CodePoint} {t u : Text} (hc : isSpace c = true) (hu : u.head?.all isSpace = true) :
      Woven blocks lines t u → Woven blocks lines (c :: t) u
  | block {body t u : Text} (hblocks : blocks = true) (hbody : ∀ c ∈ body, isRemark c = true) :
      Woven blocks lines t u → Woven blocks lines t (ch '/' :: ch '*' :: (body ++ ch '*' :: ch '/' :: u))
  | line {body t u : Text} (hlines : lines = true) (hbody : ∀ c ∈ body, isRemark c = true)
      (hfeed : ch '\n' ∉ body) (hu : atLineEnd u = true) :
      Woven blocks lines t u → Woven blocks lines t (ch '/' :: ch '/' :: (body ++ u))

section Reading

variable {limit : NestingLimit} {specials : Bool} {t u : Text}

def isSeparator : Token → Bool
  | .comma => true
  | .closeArray => true
  | .closeObject => true
  | _ => false

def Separated (ks : List Token) : Prop :=
  ks.IsChain (fun a b => isScalar a = true → isSeparator b = true)

theorem isSeparator_of_read_separator {fs : List Frame} {k : Token} {r : Reading}
    (h : read limit specials (.within fs .separator) k = .ok r) : isSeparator k = true := by
  cases k with
  | comma => rfl
  | closeArray => rfl
  | closeObject => rfl
  | _ =>
      cases fs with
      | nil => simp [read, readSeparator] at h
      | cons f fs => cases f <;> simp [read, readSeparator] at h

theorem isSeparator_of_place {v : Value} {fs : List Frame} {k : Token} {r r' : Reading}
    (h : place v fs = .ok r) (h' : read limit specials r k = .ok r') : isSeparator k = true := by
  cases fs with
  | nil =>
      obtain rfl := Except.ok.inj h
      simp [read] at h'
  | cons f fs =>
      cases f with
      | array items =>
          obtain rfl := Except.ok.inj h
          exact isSeparator_of_read_separator h'
      | object ms => simp [place] at h
      | member ms name =>
          obtain rfl := Except.ok.inj h
          exact isSeparator_of_read_separator h'

theorem isSeparator_of_read {r r₁ r₂ : Reading} {k k' : Token} (hk : isScalar k = true)
    (h : read limit specials r k = .ok r₁) (h' : read limit specials r₁ k' = .ok r₂) : isSeparator k' = true := by
  cases k with
  | scalar v =>
      cases r with
      | complete v => simp [read] at h
      | within fs next =>
          cases next with
          | value => exact isSeparator_of_place h h'
          | valueOrClose => exact isSeparator_of_place h h'
          | separator =>
              have := isSeparator_of_read_separator h
              simp [isSeparator] at this
          | colon => simp [read] at h
          | name =>
              cases fs with
              | nil => simp [read, readName] at h
              | cons f fs => cases f <;> simp [read, readName] at h
          | nameOrClose =>
              cases fs with
              | nil => simp [read, readName] at h
              | cons f fs => cases f <;> simp [read, readName] at h
  | _ => simp [isScalar] at hk

theorem separated_of_readAll {r r' : Reading} {ks : List Token} (h : readAll limit specials r ks = .ok r') :
    Separated ks := by
  induction ks generalizing r with
  | nil => exact .nil
  | cons k ks ih =>
      obtain ⟨r₁, hread, h⟩ := exists_read_of_readAll h
      cases ks with
      | nil => exact .singleton k
      | cons k' ks =>
          obtain ⟨r₂, hread', -⟩ := exists_read_of_readAll h
          exact .cons_cons (fun hk => isSeparator_of_read hk hread hread') (ih h)

theorem not_isSeparator_of_isScalar {k : Token} (hk : isScalar k = true) : isSeparator k = false := by
  cases k with
  | scalar v => rfl
  | _ => simp [isScalar] at hk

theorem not_isSeparator_numberToken (negative : Bool) (t : Text) :
    isSeparator (numberToken negative t).1 = false := by
  by_cases hk : (numberToken negative t).1 = .fault
  · rw [hk]
    rfl
  · exact not_isSeparator_of_isScalar (isScalar_of_numberToken (n := (numberToken negative t).2) rfl hk)

theorem not_isSeparator_of_isNumeral {d : CodePoint} (hd : isNumeral d = true) (t : Text) :
    isSeparator (tokenAt d t).1 = false := by
  have hpunct : punctuation.all (fun c => !isNumeral c) = true := by decide
  have hp : d ∉ punctuation := fun hmem => by
    simpa [hd] using List.all_eq_true.mp hpunct d hmem
  have hquote : d ≠ '"' := by
    rintro rfl
    exact absurd hd (by decide)
  rw [tokenAt_of_not_punctuation t hp hquote]
  cases hfind : keywords.find? (fun k => k.1.isPrefixOf (d :: t)) with
  | some p =>
      have hword : keywords.all (fun p => !isSeparator p.2) = true := by decide
      simpa using List.all_eq_true.mp hword p (List.mem_of_find?_eq_some hfind)
  | none =>
      rw [Option.map_none, Option.getD_none]
      split
      · exact not_isSeparator_numberToken true t
      · exact not_isSeparator_numberToken false (d :: t)

theorem head?_tokens_of_not_space {c : CodePoint} (hc : isSpace c = false) (cs : Text) :
    (tokens (c :: cs)).head? = some (tokenAt c cs).1 := by
  rw [tokens, tokensFrom, hc, if_neg Bool.false_ne_true]
  cases hat : tokenAt c cs with
  | mk k n => cases k <;> rfl

theorem endsNumber_of_tokens (h : ∀ k ∈ (tokens t).head?, isSeparator k = true) : EndsNumber t := by
  intro d hd
  obtain ⟨s, rfl⟩ := List.head?_eq_some_iff.mp hd
  by_contra hnum
  rw [Bool.not_eq_false] at hnum
  have hspace : isSpace d = false := by
    rw [Bool.eq_false_iff]
    intro hspace
    simp only [isSpace, Bool.or_eq_true, beq_iff_eq] at hspace
    rcases hspace with ((rfl | rfl) | rfl) | rfl <;> exact absurd hnum (by decide)
  have hk := h _ (head?_tokens_of_not_space hspace s)
  rw [not_isSeparator_of_isNumeral hnum] at hk
  exact Bool.false_ne_true hk

theorem tokens_eq_of_woven (h : Woven false false t u) (hs : Separated (tokens t)) :
    tokens u = tokens t := by
  induction h with
  | nil => rfl
  | @token c w t u k hc hat hk _ ih =>
      have ht : tokens (c :: (w ++ t)) = k :: tokens t := by
        rw [tokens_cons_of_not_space hc hat hk, List.drop_left]
      rw [ht] at hs ⊢
      have hu := ih hs.tail
      have hends : isScalar k = true → EndsNumber t ∧ EndsNumber u := by
        intro hscalar
        have hsep : ∀ k' ∈ (tokens t).head?, isSeparator k' = true := fun k' hk' =>
          List.isChain_cons.mp hs |>.1 k' hk' hscalar
        exact ⟨endsNumber_of_tokens hsep, endsNumber_of_tokens (hu ▸ hsep)⟩
      have hat' := tokenAt_append hat hk (fun hscalar => (hends hscalar).1) (fun hscalar => (hends hscalar).2)
      rw [tokens_cons_of_not_space hc hat' hk, List.drop_left, hu]
  | blank hc _ ih => rw [tokens_space hc, ih hs]
  | spared hc _ _ ih =>
      rw [tokens_space hc] at hs ⊢
      exact ih hs
  | block hblocks => exact absurd hblocks Bool.false_ne_true
  | line hlines => exact absurd hlines Bool.false_ne_true

theorem parse_of_woven {v : Value} (h : Woven false false t u) (hparse : parse limit specials t = .ok v) :
    parse limit specials u = .ok v := by
  have hs : Separated (tokens t) := by
    rw [parse] at hparse
    cases hread : readAll limit specials start (tokens t) with
    | error e =>
        rw [hread] at hparse
        exact absurd hparse (by simp [bind, Except.bind])
    | ok r => exact separated_of_readAll hread
  rw [parse, tokens_eq_of_woven h hs]
  exact hparse

end Reading

section Strings

variable {c : CodePoint} {w t u : Text} {k : Token}

theorem closesAt_of_token (hat : tokenAt '"' (w ++ t) = (k, w.length)) (hk : k ≠ .fault) (u : Text) :
    ClosesAt (w ++ u) w.length :=
  closesAt_of_stringToken (stringToken_append hat hk u) hk

theorem token_bare (hat : tokenAt c (w ++ t) = (k, w.length)) (hk : k ≠ .fault) (hc : c ≠ '"') :
    ∀ d ∈ c :: w, isBare d = true := by
  obtain ⟨hhead, htail⟩ := tokenAt_bare hat hk hc
  rw [List.take_left] at htail
  exact List.forall_mem_cons.mpr ⟨hhead, htail⟩

theorem sentinel_not_mem_of_bare (h : ∀ d ∈ w, isBare d = true) : defaultSentinel ∉ w :=
  fun hm => absurd (h _ hm) (by decide)

theorem isBare_of_isRemark (h : ∀ d ∈ w, isRemark d = true) : ∀ d ∈ w, isBare d = true :=
  fun d hd => (Bool.and_eq_true_iff.mp (h d hd)).1

theorem Woven.sentinel_not_mem {blocks lines : Bool} (h : Woven blocks lines t u) :
    defaultSentinel ∉ u := by
  induction h with
  | nil => exact List.not_mem_nil
  | @token c w t u k hc hat hk _ ih =>
      rw [← List.cons_append, List.mem_append, not_or]
      refine ⟨?_, ih⟩
      by_cases hquote : c = '"'
      · subst hquote
        have hfree := (closesAt_of_token hat hk []).sentinel_free
        rw [List.take_left] at hfree
        exact List.not_mem_cons_of_ne_of_not_mem (by decide) hfree
      · exact sentinel_not_mem_of_bare (token_bare hat hk hquote)
  | blank hc _ ih =>
      refine List.not_mem_cons_of_ne_of_not_mem ?_ ih
      rintro rfl
      exact absurd hc (by decide)
  | spared _ _ _ ih => exact ih
  | @block body t u _ hbody _ ih =>
      have hfree := sentinel_not_mem_of_bare (isBare_of_isRemark hbody)
      simp [hfree, ih, show defaultSentinel ≠ '/' by decide, show defaultSentinel ≠ '*' by decide]
  | @line body t u _ hbody _ _ _ ih =>
      have hfree := sentinel_not_mem_of_bare (isBare_of_isRemark hbody)
      simp [hfree, ih, show defaultSentinel ≠ '/' by decide]

end Strings

section Tidying

variable {t u : Text}

def isControl (c : CodePoint) : Bool := c.toNat < 0x20

theorem hexValue?_of_isControl {c : CodePoint} (h : isControl c = true) : hexValue? c = none := by
  have hlt : c.toNat < 0x20 := by simpa [isControl] using h
  have hzero : '0'.toNat = 48 := rfl
  have ha : 'a'.toNat = 97 := rfl
  have hA : 'A'.toNat = 65 := rfl
  rw [hexValue?, if_neg (by simp [hzero]; omega), if_neg (by simp [ha]; omega), if_neg (by simp [hA]; omega)]

theorem not_isControl_of_lookup {e : CodePoint} {u : Nat} (h : shortEscapes.lookup e = some u) :
    isControl e = false := by
  have hall : shortEscapes.all (fun p => !isControl p.1) = true := by decide
  obtain ⟨l₁, l₂, hl, -⟩ := List.lookup_eq_some_iff.mp h
  simpa using List.all_eq_true.mp hall (e, u) (by simp [hl])

theorem stringUnits_closed {t : Text} {us : List Written} {n : Nat} (h : stringUnits t = some (us, n)) :
    ∃ b, t.take n = b ++ [ch '"'] ∧ ∀ d ∈ b, isControl d = false := by
  fun_induction stringUnits t generalizing us n with
  | case1 => simp at h
  | case2 cs =>
      obtain ⟨-, rfl⟩ := Prod.mk.inj (Option.some.inj h)
      exact ⟨[], rfl, by simp⟩
  | case3 a b c d cs ih =>
      simp only [Option.bind_eq_bind, Option.bind_eq_some_iff, Option.some.injEq, Prod.mk.injEq,
        Prod.exists] at h
      obtain ⟨x, hx, vs, k, hcs, -, rfl⟩ := h
      obtain ⟨w, hw, hplain⟩ := ih hcs
      have hhex : ∀ e ∈ [a, b, c, d], isControl e = false := by
        intro e he
        rw [Bool.eq_false_iff]
        exact fun hcontrol => not_mem_of_hexNumber? hx (hexValue?_of_isControl hcontrol) he
      refine ⟨ch '\\' :: ch 'u' :: ([a, b, c, d] ++ w), by simp [hw], ?_⟩
      intro e he
      rcases List.mem_cons.mp he with rfl | he
      · rfl
      · rcases List.mem_cons.mp he with rfl | he
        · rfl
        · exact (List.mem_append.mp he).elim (hhex e) (hplain e)
  | case4 e cs hu ih =>
      simp only [Option.bind_eq_bind, Option.bind_eq_some_iff, Option.some.injEq, Prod.mk.injEq,
        Prod.exists] at h
      obtain ⟨x, hx, vs, k, hcs, -, rfl⟩ := h
      obtain ⟨w, hw, hplain⟩ := ih hcs
      refine ⟨ch '\\' :: e :: w, by simp [hw], ?_⟩
      exact List.forall_mem_cons.mpr ⟨rfl, List.forall_mem_cons.mpr ⟨not_isControl_of_lookup hx, hplain⟩⟩
  | case5 c cs _ _ _ _ => simp at h
  | case6 c cs hquote _ _ hplain ih =>
      simp only [Option.map_eq_some_iff, Prod.mk.injEq, Prod.exists] at h
      obtain ⟨vs, k, hcs, -, rfl⟩ := h
      simp only [Bool.or_eq_true, decide_eq_true_eq, beq_iff_eq, not_or, Nat.not_lt] at hplain
      obtain ⟨w, hw, hrest⟩ := ih hcs
      have hc : isControl c = false := by simpa [isControl] using hplain.1
      exact ⟨c :: w, by simp [hw], List.forall_mem_cons.mpr ⟨hc, hrest⟩⟩

theorem isFirm_of_isNumeral {d : CodePoint} (hd : isNumeral d = true) : isFirm d = true := by
  rw [isFirm_iff]
  refine ⟨?_, ?_⟩
  · rw [Bool.eq_false_iff]
    intro hblank
    simp only [isInlineBlank, Bool.or_eq_true, beq_iff_eq] at hblank
    rcases hblank with rfl | rfl <;> exact absurd hd (by decide)
  · rintro rfl
    exact absurd hd (by decide)

theorem not_isControl_of_isNumeral {d : CodePoint} (hd : isNumeral d = true) : isControl d = false := by
  simp only [isNumeral, isDigit, Bool.or_eq_true, Bool.and_eq_true, decide_eq_true_eq, beq_iff_eq] at hd
  have hzero : '0'.toNat = 48 := rfl
  rw [isControl, decide_eq_false_iff_not]
  rcases hd with ((((hd | rfl) | rfl) | rfl) | rfl) | rfl
  · omega
  all_goals decide

theorem token_firm {c : CodePoint} {w t : Text} {k : Token} (hat : tokenAt c (w ++ t) = (k, w.length))
    (hk : k ≠ .fault) : (∀ d ∈ c :: w, isControl d = false) ∧ endsFirm (c :: w) = true := by
  by_cases hquote : c = '"'
  · subst hquote
    have hstring : stringToken (w ++ t) = (k, w.length) := hat
    unfold stringToken at hstring
    split at hstring
    · exact absurd (Prod.mk.inj hstring).1.symm hk
    · rename_i us m hunits
      obtain ⟨b, hb, hplain⟩ := stringUnits_closed hunits
      rw [(Prod.mk.inj hstring).2, List.take_left] at hb
      subst hb
      refine ⟨?_, ?_⟩
      · intro d hd
        rcases List.mem_cons.mp hd with rfl | hd
        · rfl
        · rcases List.mem_append.mp hd with hd | hd
          · exact hplain d hd
          · rw [List.mem_singleton.mp hd]
            rfl
      · rw [← List.cons_append, endsFirm_append_singleton]
        rfl
  · obtain ⟨hhead, htail⟩ := tokenAt_forall (q := fun d => isFirm d && !isControl d) (by decide) (by decide)
      (fun d hd => by rw [isFirm_of_isNumeral hd, not_isControl_of_isNumeral hd]; rfl) hat hk hquote
    rw [List.take_left] at htail
    have hboth : ∀ d ∈ c :: w, (isFirm d && !isControl d) = true :=
      List.forall_mem_cons.mpr ⟨hhead, htail⟩
    have hall : ∀ d ∈ c :: w, isFirm d = true ∧ isControl d = false := by
      intro d hd
      simpa using hboth d hd
    refine ⟨fun d hd => (hall d hd).2, ?_⟩
    rw [endsFirm, List.getLast?_eq_some_getLast (List.cons_ne_nil c w), Option.any_some]
    exact (hall _ (List.getLast_mem _)).1

theorem all_isSpace_of_atLineEnd (h : atLineEnd t = true) : t.head?.all isSpace = true := by
  cases t with
  | nil => rfl
  | cons c t =>
      obtain rfl : c = '\n' := by simpa [atLineEnd] using h
      rfl

theorem all_isSpace_tidied (h : u.head?.all isSpace = true) : (tidied u).head?.all isSpace = true := by
  cases u with
  | nil => rfl
  | cons c u =>
      have hc : isSpace c = true := by simpa using h
      rw [tidied_cons, tidyStep]
      split
      · rename_i hdrop
        rw [Bool.or_eq_true, Bool.and_eq_true, Bool.and_eq_true, startsDouble, Bool.and_eq_true] at hdrop
        exact all_isSpace_of_atLineEnd (hdrop.elim And.right fun h => atLineEnd_of_startsLine h.2.1)
      · simpa using hc

theorem Woven.tidied (h : Woven false false t u) : Woven false false t (tidied u) := by
  induction h with
  | nil => exact .nil
  | @token c w t u k hc hat hk _ ih =>
      obtain ⟨hplain, hends⟩ := token_firm hat hk
      have hline : ch '\n' ∉ c :: w := fun hm => absurd (hplain _ hm) (by decide)
      have htidied : Text.tidied (c :: (w ++ u)) = c :: (w ++ Text.tidied u) := by
        have hfold := foldr_tidyStep_of_endsFirm hends (Text.tidied u)
        rw [(sturdy_of_no_newline hline hends).tidied_eq] at hfold
        rw [← List.cons_append, Text.tidied, List.foldr_append]
        exact hfold
      rw [htidied]
      exact .token hc hat hk ih
  | @blank c t u hc _ ih =>
      rcases tidyStep_eq_cases c (Text.tidied u) with heq | heq
      · rw [tidied_cons, heq]
        exact ih
      · rw [tidied_cons, heq]
        exact .blank hc ih
  | spared hc hu _ ih => exact .spared hc (all_isSpace_tidied hu) ih
  | block hblocks => exact absurd hblocks Bool.false_ne_true
  | line hlines => exact absurd hlines Bool.false_ne_true

end Tidying

end CodeCompaction.Json
