import Mathlib.Data.Option.Basic
import Mathlib.Order.Nat
import CodeCompaction.Literal.Scan

namespace CodeCompaction.Literal

open CodeCompaction.Text

/-- Whether a position of the body that starts at `b` is escaped: a backslash of the body stands before it that
is not escaped itself. -/
def escaped (t : Text) (b : Nat) : Nat → Bool
  | 0 => false
  | i + 1 => decide (b ≤ i) && t[i]? == some (ch '\\') && !escaped t b i

def Passes (p : Text → Bool) (t : Text) (b i : Nat) : Prop :=
  b ≤ i ∧ escaped t b i = false ∧ p (t.drop i) = true

def startsWith (c : CodePoint) (t : Text) : Bool := t.head? == some c

def First (f : Nat → Prop) (i : Nat) : Prop := f i ∧ ∀ j < i, ¬ f j

inductive QuoteEnds (t : Text) (b : Nat) (q : CodePoint) : Nat → Prop where
  | closed {j : Nat} (quote : First (Passes (startsWith q) t b) j)
      (line : ∀ k < j, ¬ Passes (startsWith '\n') t b k) : QuoteEnds t b q (j + 1)
  | line {j : Nat} (line : First (Passes (startsWith '\n') t b) j)
      (quote : ∀ k < j, ¬ Passes (startsWith q) t b k) : QuoteEnds t b q j
  | text (quote : ∀ k, ¬ Passes (startsWith q) t b k) (line : ∀ k, ¬ Passes (startsWith '\n') t b k) :
      QuoteEnds t b q t.length

inductive TripleEnds (t : Text) (b : Nat) (q : CodePoint) : Nat → Prop where
  | closed {j : Nat} (quotes : First (Passes (startsTriple q) t b) j) : TripleEnds t b q (j + 3)
  | text (quotes : ∀ k, ¬ Passes (startsTriple q) t b k) : TripleEnds t b q t.length

section First

variable {f g : Nat → Prop} {i j b : Nat} {o : Option Nat}

theorem First.unique (hi : First f i) (hj : First f j) : i = j := by
  rcases Nat.lt_trichotomy i j with hlt | heq | hgt
  · exact absurd hi.1 (hj.2 i hlt)
  · exact heq
  · exact absurd hj.1 (hi.2 j hgt)

theorem exists_first (h : f i) : ∃ j, First f j := by
  classical
  exact ⟨Nat.find ⟨i, h⟩, Nat.find_spec ⟨i, h⟩, fun j hj => Nat.find_min ⟨i, h⟩ hj⟩

theorem first_zero_iff (h : f 0) : First f j ↔ j = 0 := by
  refine ⟨fun hj => hj.unique ⟨h, by simp⟩, ?_⟩
  rintro rfl
  exact ⟨h, by simp⟩

theorem map_succ_eq_some_iff (hzero : ¬ f 0) (hsucc : ∀ k, f (k + 1) ↔ g k) (ho : ∀ j, o = some j ↔ First g j)
    (j : Nat) : o.map (· + 1) = some j ↔ First f j := by
  cases j with
  | zero => simp [First, hzero]
  | succ j =>
      have hfirst : First f (j + 1) ↔ First g j := by
        rw [First, First, hsucc, Nat.forall_lt_succ_left]
        simp [hzero, hsucc]
      rw [hfirst, ← ho]
      simp

theorem first_add_iff (hbefore : ∀ k < b, ¬ f k) (hadd : ∀ k, f (b + k) ↔ g k) : First f (b + j) ↔ First g j := by
  rw [First, First, hadd]
  refine and_congr_right fun _ => ⟨fun h k hk => ?_, fun h k hk => ?_⟩
  · rw [← hadd]
    exact h (b + k) (by omega)
  · by_cases hkb : k < b
    · exact hbefore k hkb
    · obtain ⟨k, rfl⟩ := Nat.exists_eq_add_of_le (Nat.le_of_not_lt hkb)
      rw [hadd]
      exact h k (by omega)

end First

section Escaped

variable {t : Text} {c d : CodePoint} {b k : Nat}

theorem escaped_add (t : Text) (b i : Nat) : escaped t b (b + i) = escaped (t.drop b) 0 i := by
  induction i with
  | zero => cases b <;> simp [escaped]
  | succ i ih => simp [escaped, ih]

theorem escaped_behind_backslash (d : CodePoint) (t : Text) (k : Nat) :
    escaped (ch '\\' :: d :: t) 0 (k + 2) = escaped t 0 k := by
  induction k with
  | zero => simp [escaped]
  | succ k ih => rw [escaped, ih, escaped]; simp

theorem escaped_cons (hc : c ≠ '\\') (t : Text) (k : Nat) : escaped (c :: t) 0 (k + 1) = escaped t 0 k := by
  induction k with
  | zero => simp [escaped, hc]
  | succ k ih => rw [escaped, ih, escaped]; simp

end Escaped

section Scanning

variable {p : Text → Bool} {t : Text} {q : CodePoint}

def firstPassing (p : Text → Bool) : Text → Option Nat
  | [] => none
  | ch '\\' :: _ :: cs => (firstPassing p cs).map (· + 2)
  | c :: cs => if p (c :: cs) then some 0 else (firstPassing p cs).map (· + 1)

structure Tests (p : Text → Bool) : Prop where
  nil : p [] = false
  backslash : ∀ t, p (ch '\\' :: t) = false

theorem firstPassing_eq_some_iff (hp : Tests p) (t : Text) (j : Nat) :
    firstPassing p t = some j ↔ First (Passes p t 0) j := by
  fun_induction firstPassing p t generalizing j with
  | case1 => simp [First, Passes, hp.nil]
  | case2 d cs ih =>
      have hone : ¬ Passes p (ch '\\' :: d :: cs) 0 1 := by simp [Passes, escaped]
      have hinner := map_succ_eq_some_iff (f := fun k => Passes p (ch '\\' :: d :: cs) 0 (k + 1)) hone
        (fun k => by simp [Passes, escaped_behind_backslash]) ih
      have houter := map_succ_eq_some_iff (f := Passes p (ch '\\' :: d :: cs) 0) (by simp [Passes, hp.backslash])
        (fun k => Iff.rfl) hinner j
      rwa [Option.map_map] at houter
  | case3 c cs hesc hpass =>
      rw [first_zero_iff ⟨Nat.le_refl 0, rfl, hpass⟩]
      simp [eq_comm]
  | case4 c cs hesc hpass ih =>
      refine map_succ_eq_some_iff (by simpa [Passes, escaped] using hpass) (fun k => ?_) ih j
      by_cases hc : c = '\\'
      · obtain rfl : cs = [] := by
          cases cs with
          | nil => rfl
          | cons d cs => exact absurd rfl (hesc d cs hc)
        simp [Passes, hp.nil]
      · simp [Passes, escaped_cons hc]

theorem firstPassing_drop_eq_some_iff (hp : Tests p) (t : Text) (b j : Nat) :
    firstPassing p (t.drop b) = some j ↔ First (Passes p t b) (b + j) := by
  rw [firstPassing_eq_some_iff hp]
  refine (first_add_iff (fun k hk h => ?_) (fun k => ?_)).symm
  · exact absurd h.1 (Nat.not_le.mpr hk)
  · simp [Passes, escaped_add]

theorem firstPassing_drop_eq_none_iff (hp : Tests p) (t : Text) (b : Nat) :
    firstPassing p (t.drop b) = none ↔ ∀ k, ¬ Passes p t b k := by
  rw [← not_iff_not, ← Ne, Option.ne_none_iff_exists', not_forall_not]
  constructor
  · rintro ⟨j, hj⟩
    exact ⟨_, ((firstPassing_drop_eq_some_iff hp t b j).mp hj).1⟩
  · rintro ⟨k, hk⟩
    obtain ⟨j, hj⟩ := exists_first hk
    obtain ⟨j, rfl⟩ := Nat.exists_eq_add_of_le hj.1.1
    exact ⟨j, (firstPassing_drop_eq_some_iff hp t b j).mpr hj⟩

def closesOrBreaks (q : CodePoint) (t : Text) : Bool := startsWith q t || startsWith '\n' t

theorem tests_closesOrBreaks (hq : isQuote q = true) : Tests (closesOrBreaks q) where
  nil := rfl
  backslash t := by
    have hne : ('\\' == q) = false := by
      rw [beq_eq_false_iff_ne]
      rintro rfl
      exact absurd hq (by decide)
    simp [closesOrBreaks, startsWith, hne]

theorem tests_startsTriple (hq : isQuote q = true) : Tests (startsTriple q) where
  nil := rfl
  backslash t := by
    have hne : (q == '\\') = false := by
      rw [beq_eq_false_iff_ne]
      rintro rfl
      exact absurd hq (by decide)
    simp [startsTriple, List.isPrefixOf, hne]

theorem quotedEnd_eq (q : CodePoint) (t : Text) : quotedEnd q t =
    (firstPassing (closesOrBreaks q) t).elim t.length
      (fun j => if startsWith q (t.drop j) then j + 1 else j) := by
  fun_induction quotedEnd q t with
  | case1 => rfl
  | case2 d cs ih =>
      rw [firstPassing, ih]
      cases firstPassing (closesOrBreaks q) cs with
      | none => rfl
      | some j =>
          simp only [Option.map_some, Option.elim_some, List.drop_succ_cons]
          split <;> rfl
  | case3 c cs hesc hc =>
      have hstart : startsWith q (c :: cs) = true := by simpa [startsWith] using hc
      rw [firstPassing.eq_3 _ _ _ hesc, if_pos (by rw [closesOrBreaks, hstart, Bool.true_or])]
      simp [hstart]
  | case4 c cs hesc hc hline =>
      have hstart : startsWith q (c :: cs) = false := by simpa [startsWith] using hc
      have hbreak : startsWith '\n' (c :: cs) = true := by simpa [startsWith] using hline
      rw [firstPassing.eq_3 _ _ _ hesc, if_pos (by rw [closesOrBreaks, hbreak, Bool.or_true])]
      simp [hstart]
  | case5 c cs hesc hc hline ih =>
      have hneither : closesOrBreaks q (c :: cs) = false := by
        simpa [closesOrBreaks, startsWith] using And.intro hc hline
      rw [firstPassing.eq_3 _ _ _ hesc, if_neg (by simp [hneither]), ih]
      cases firstPassing (closesOrBreaks q) cs with
      | none => rfl
      | some j =>
          simp only [Option.map_some, Option.elim_some, List.drop_succ_cons]
          split <;> rfl

theorem tripleEnd_eq (q : CodePoint) (t : Text) : tripleEnd q t =
    (firstPassing (startsTriple q) t).elim t.length (· + 3) := by
  fun_induction tripleEnd q t with
  | case1 => rfl
  | case2 d cs ih =>
      rw [firstPassing, ih]
      cases firstPassing (startsTriple q) cs <;> rfl
  | case3 c cs hesc hc =>
      rw [firstPassing.eq_3 _ _ _ hesc, if_pos hc]
      rfl
  | case4 c cs hesc hc ih =>
      rw [firstPassing.eq_3 _ _ _ hesc, if_neg hc, ih]
      cases firstPassing (startsTriple q) cs <;> rfl

end Scanning

section Ends

variable {t : Text} {b e e' : Nat} {q : CodePoint}

theorem passes_closesOrBreaks_iff (k : Nat) : Passes (closesOrBreaks q) t b k ↔
    Passes (startsWith q) t b k ∨ Passes (startsWith '\n') t b k := by
  rw [Passes, Passes, Passes, closesOrBreaks, Bool.or_eq_true, and_or_left, and_or_left]

theorem quoteEnds_quotedEnd (hq : isQuote q = true) (hb : b ≤ t.length) :
    QuoteEnds t b q (b + quotedEnd q (t.drop b)) := by
  rw [quotedEnd_eq]
  cases hfirst : firstPassing (closesOrBreaks q) (t.drop b) with
  | none =>
      have hnone := (firstPassing_drop_eq_none_iff (tests_closesOrBreaks hq) t b).mp hfirst
      simp only [passes_closesOrBreaks_iff, not_or] at hnone
      rw [Option.elim_none, List.length_drop, Nat.add_sub_cancel' hb]
      exact .text (fun k => (hnone k).1) (fun k => (hnone k).2)
  | some j =>
      obtain ⟨hj, hbefore⟩ := (firstPassing_drop_eq_some_iff (tests_closesOrBreaks hq) t b j).mp hfirst
      simp only [passes_closesOrBreaks_iff, not_or] at hbefore
      rw [Option.elim_some, List.drop_drop]
      split
      · rename_i hquote
        exact .closed ⟨⟨hj.1, hj.2.1, hquote⟩, fun k hk => (hbefore k hk).1⟩ (fun k hk => (hbefore k hk).2)
      · rename_i hquote
        have hline := ((passes_closesOrBreaks_iff _).mp hj).resolve_left fun h => hquote h.2.2
        exact .line ⟨hline, fun k hk => (hbefore k hk).2⟩ (fun k hk => (hbefore k hk).1)

theorem not_passes_both (hq : isQuote q = true) {k : Nat} (h : Passes (startsWith q) t b k) :
    ¬ Passes (startsWith '\n') t b k := by
  intro h'
  have hquote := h.2.2
  have hline := h'.2.2
  rw [startsWith, beq_iff_eq] at hquote hline
  obtain rfl := Option.some.inj (hquote.symm.trans hline)
  exact absurd hq (by decide)

theorem QuoteEnds.unique (hq : isQuote q = true) (h : QuoteEnds t b q e) (h' : QuoteEnds t b q e') : e = e' := by
  have hcross : ∀ {i j : Nat}, First (Passes (startsWith q) t b) i → (∀ k < i, ¬ Passes (startsWith '\n') t b k) →
      First (Passes (startsWith '\n') t b) j → (∀ k < j, ¬ Passes (startsWith q) t b k) → False := by
    intro i j hi hline hj hquote
    rcases Nat.lt_trichotomy i j with hlt | heq | hgt
    · exact hquote i hlt hi.1
    · exact not_passes_both hq hi.1 (heq ▸ hj.1)
    · exact hline j hgt hj.1
  cases h with
  | closed hi hline =>
      cases h' with
      | closed hj _ => rw [hi.unique hj]
      | line hj hquote => exact (hcross hi hline hj hquote).elim
      | text hquote _ => exact absurd hi.1 (hquote _)
  | line hi hquote =>
      cases h' with
      | closed hj hline => exact (hcross hj hline hi hquote).elim
      | line hj _ => exact hi.unique hj
      | text _ hline => exact absurd hi.1 (hline _)
  | text hquote hline =>
      cases h' with
      | closed hj _ => exact absurd hj.1 (hquote _)
      | line hj _ => exact absurd hj.1 (hline _)
      | text _ _ => rfl

theorem tripleEnds_tripleEnd (hq : isQuote q = true) (hb : b ≤ t.length) :
    TripleEnds t b q (b + tripleEnd q (t.drop b)) := by
  rw [tripleEnd_eq]
  cases hfirst : firstPassing (startsTriple q) (t.drop b) with
  | none =>
      rw [Option.elim_none, List.length_drop, Nat.add_sub_cancel' hb]
      exact .text ((firstPassing_drop_eq_none_iff (tests_startsTriple hq) t b).mp hfirst)
  | some j => exact .closed ((firstPassing_drop_eq_some_iff (tests_startsTriple hq) t b j).mp hfirst)

theorem TripleEnds.unique (h : TripleEnds t b q e) (h' : TripleEnds t b q e') : e = e' := by
  cases h with
  | closed hi =>
      cases h' with
      | closed hj => rw [hi.unique hj]
      | text hnone => exact absurd hi.1 (hnone _)
  | text hnone =>
      cases h' with
      | closed hj => exact absurd hj.1 (hnone _)
      | text _ => rfl

theorem QuoteEnds.not_line (hq : isQuote q = true) (h : QuoteEnds t b q e) {k : Nat} (hk : k < e) :
    ¬ Passes (startsWith '\n') t b k := by
  cases h with
  | closed hj hline =>
      rcases Nat.lt_or_eq_of_le (Nat.le_of_lt_succ hk) with hlt | rfl
      · exact hline k hlt
      · exact not_passes_both hq hj.1
  | line hj _ => exact hj.2 k hk
  | text _ hline => exact hline k

theorem QuoteEnds.not_quote (h : QuoteEnds t b q e) {k : Nat} (hk : k + 1 < e) :
    ¬ Passes (startsWith q) t b k := by
  cases h with
  | closed hj _ => exact hj.2 k (by omega)
  | line _ hquote => exact hquote k (by omega)
  | text hquote _ => exact hquote k

theorem TripleEnds.not_quotes (h : TripleEnds t b q e) {k : Nat} (hk : k + 3 < e) :
    ¬ Passes (startsTriple q) t b k := by
  cases h with
  | closed hj => exact hj.2 k (by omega)
  | text hnone => exact hnone k

end Ends

theorem literals_end_at_first_closer {t : Text} {i : Nat} {q : CodePoint} (hi : t[i]? = some q)
    (hq : isQuote q = true) :
    (∀ e, QuoteEnds t (i + 1) q e ↔ e = i + 1 + quotedEnd q (t.drop (i + 1))) ∧
      (∀ e, QuoteEnds t (i + 1) q e →
        (∀ k < e, ¬ Passes (startsWith '\n') t (i + 1) k) ∧
        ∀ k, k + 1 < e → ¬ Passes (startsWith q) t (i + 1) k) ∧
      (startsTriple q (t.drop i) = true →
        (∀ e, TripleEnds t (i + 3) q e ↔ e = i + 3 + tripleEnd q (t.drop (i + 3))) ∧
        ∀ e, TripleEnds t (i + 3) q e → ∀ k, k + 3 < e → ¬ Passes (startsTriple q) t (i + 3) k) := by
  obtain ⟨hlt, -⟩ := List.getElem?_eq_some_iff.mp hi
  have hends : QuoteEnds t (i + 1) q (i + 1 + quotedEnd q (t.drop (i + 1))) := quoteEnds_quotedEnd hq hlt
  refine ⟨fun e => ⟨fun h => h.unique hq hends, ?_⟩, fun e h => ?_, fun htriple => ?_⟩
  · rintro rfl
    exact hends
  · exact ⟨fun k hk => h.not_line hq hk, fun k hk => h.not_quote hk⟩
  · have hlen := startsTriple_length htriple
    rw [List.length_drop] at hlen
    have hends3 : TripleEnds t (i + 3) q (i + 3 + tripleEnd q (t.drop (i + 3))) :=
      tripleEnds_tripleEnd hq (by omega)
    refine ⟨fun e => ⟨fun h => h.unique hends3, ?_⟩, fun e h k hk => h.not_quotes hk⟩
    rintro rfl
    exact hends3

theorem literals_end_at_first_closer_of_backslashes :
    TripleEnds "'''a\\'''b'''\"\\\\\\\"\n".toText 3 '\'' 12 ∧
      QuoteEnds "'''a\\'''b'''\"\\\\\\\"\n".toText 13 '"' 17 := by
  refine ⟨?_, ?_⟩
  · exact (((literals_end_at_first_closer (i := 0) rfl (by decide)).2.2 (by decide)).1 12).mpr (by decide)
  · exact ((literals_end_at_first_closer (i := 12) rfl (by decide)).1 17).mpr (by decide)

end CodeCompaction.Literal
