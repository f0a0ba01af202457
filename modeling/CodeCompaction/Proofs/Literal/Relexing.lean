import CodeCompaction.Proofs.Literal.Boundary
import CodeCompaction.Proofs.Literal.Parting
import CodeCompaction.Proofs.Literal.Standing

namespace CodeCompaction.Literal

open CodeCompaction.Text

structure Yields (u u' : Text) : Prop where
  textEnd : u = [] → u' = []
  lineEnd : atLineEnd u = true → atLineEnd u' = true
  quote : ∀ q, isQuote q = true → u'.head? = some q → u.head? = some q

section Ends

variable {q : CodePoint} {y u : Text}

theorem ne_backslash_of_isQuote (hq : isQuote q = true) : q ≠ '\\' := by
  rintro rfl
  exact absurd hq (by decide)

theorem ne_newline_of_isQuote (hq : isQuote q = true) : q ≠ '\n' := by
  rintro rfl
  exact absurd hq (by decide)

theorem quotedEnd_eq_zero (hq : q ≠ '\n') (hu : atLineEnd u = true) : quotedEnd q u = 0 := by
  cases u with
  | nil => rfl
  | cons c u =>
      obtain rfl : c = '\n' := by simpa [atLineEnd] using hu
      simp [quotedEnd, Ne.symm hq]

theorem atLineEnd_of_quotedEnd_eq_zero (h : quotedEnd q u = 0) : atLineEnd u = true := by
  fun_cases quotedEnd q u with
  | case1 => rfl
  | case2 d cs => simp [quotedEnd] at h
  | case3 c cs hesc hc => simp [quotedEnd, hc] at h
  | case4 c cs hesc hc hn => exact hn
  | case5 c cs hesc hc hn => simp [quotedEnd, hc, hn] at h

theorem quotedEnd_settled (hq : isQuote q = true) (h : quotedEnd q (y ++ u) = y.length) :
    u = [] ∨ ∀ u', (atLineEnd u = true → atLineEnd u' = true) → quotedEnd q (y ++ u') = y.length := by
  fun_induction quotedEnd q y with
  | case1 =>
      exact .inr fun u' hu' =>
        quotedEnd_eq_zero (ne_newline_of_isQuote hq) (hu' (atLineEnd_of_quotedEnd_eq_zero h))
  | case2 d cs ih =>
      simp only [List.cons_append, quotedEnd, List.length_cons, Nat.add_right_cancel_iff] at h ⊢
      exact ih h
  | case3 c cs hesc hc =>
      have hback : c ≠ '\\' := by
        rw [beq_iff_eq.mp hc]
        exact ne_backslash_of_isQuote hq
      simp only [List.cons_append, quotedEnd_cons_of_ne q hback, if_pos hc] at h ⊢
      exact .inr fun _ _ => h
  | case4 c cs hesc hc hn =>
      have hback : c ≠ '\\' := by
        rw [beq_iff_eq.mp hn]
        decide
      simp [quotedEnd_cons_of_ne q hback, hc, hn] at h
  | case5 c cs hesc hc hn ih =>
      by_cases hback : c = '\\'
      · -- a backslash at the end takes the next character with it, unless there is none
        obtain rfl := eq_nil_of_no_escape hesc hback
        cases u with
        | nil => exact .inl rfl
        | cons d r => simp [hback, quotedEnd] at h
      · simp only [List.cons_append, quotedEnd_cons_of_ne q hback, if_neg hc, if_neg hn, List.length_cons,
          Nat.add_right_cancel_iff] at h ⊢
        exact ih h

theorem startsTriple_append_of_le (h : 3 ≤ y.length) (u : Text) :
    startsTriple q (y ++ u) = startsTriple q y := by
  match y, h with
  | a :: b :: c :: y, _ => simp [startsTriple, List.isPrefixOf]

theorem tripleEnd_settled (hq : isQuote q = true) (h : tripleEnd q (y ++ u) = y.length) :
    u = [] ∨ 3 ≤ y.length ∧ ∀ u', tripleEnd q (y ++ u') = y.length := by
  fun_induction tripleEnd q y with
  | case1 =>
      refine .inl ?_
      fun_cases tripleEnd q u with
      | case1 => rfl
      | case2 d cs => simp [tripleEnd] at h
      | case3 c cs hesc hc => simp [tripleEnd, hc] at h
      | case4 c cs hesc hc => simp [tripleEnd, hc] at h
  | case2 d cs ih =>
      simp only [List.cons_append, tripleEnd, List.length_cons, Nat.add_right_cancel_iff] at h ⊢
      rcases ih h with hnil | ⟨hlen, hall⟩
      · exact .inl hnil
      · exact .inr ⟨by omega, hall⟩
  | case3 c cs hesc hc =>
      have hlen := startsTriple_length hc
      have hback : c ≠ '\\' := by
        have hhead : q = c := by
          simp only [startsTriple, List.isPrefixOf, Bool.and_eq_true, beq_iff_eq] at hc
          exact hc.1
        exact hhead ▸ ne_backslash_of_isQuote hq
      have hend (u' : Text) : tripleEnd q (c :: cs ++ u') = 3 := by
        rw [List.cons_append, tripleEnd_cons_of_ne q hback, ← List.cons_append,
          startsTriple_append_of_le hlen, if_pos hc]
      rw [hend u] at h
      exact .inr ⟨hlen, fun u' => (hend u').trans h⟩
  | case4 c cs hesc hc ih =>
      by_cases hback : c = '\\'
      · obtain rfl := eq_nil_of_no_escape hesc hback
        cases u with
        | nil => exact .inl rfl
        | cons d r => simp [hback, tripleEnd] at h
      · have hstep (u' : Text) : tripleEnd q (c :: cs ++ u') =
            if startsTriple q (c :: cs ++ u') then 3 else tripleEnd q (cs ++ u') + 1 := by
          rw [List.cons_append, tripleEnd_cons_of_ne q hback]
        have hopen (u' : Text) (hlen : 3 ≤ (c :: cs).length) : ¬ startsTriple q (c :: cs ++ u') = true := by
          rw [startsTriple_append_of_le hlen]
          exact hc
        rw [hstep, List.length_cons] at h
        split at h
        · rename_i hu
          exact absurd hu (hopen u (by rw [List.length_cons]; omega))
        · rcases ih (by omega) with hnil | ⟨hlen, hall⟩
          · exact .inl hnil
          · have hlen' : 3 ≤ (c :: cs).length := by rw [List.length_cons]; omega
            exact .inr ⟨hlen', fun u' => by rw [hstep, if_neg (hopen u' hlen'), hall u', List.length_cons]⟩

theorem templateEnd_cons_pos (d : Nat) (c : CodePoint) (t : Text) : 0 < templateEnd d (c :: t) := by
  unfold templateEnd
  split
  · contradiction
  · exact Nat.succ_pos _
  · exact Nat.succ_pos _
  · split_ifs <;> exact Nat.succ_pos _
  · split_ifs <;> exact Nat.succ_pos _

theorem eq_nil_of_templateEnd_eq_zero {d : Nat} (h : templateEnd d u = 0) : u = [] := by
  cases u with
  | nil => rfl
  | cons c u => exact absurd h (templateEnd_cons_pos d c u).ne'

theorem templateEnd_cons_cons_ne_one {c e : CodePoint} {r : Text} (hc : c ≠ '\x60') :
    templateEnd 0 (c :: e :: r) ≠ 1 := by
  have hrest := templateEnd_cons_pos 0 e r
  by_cases hback : c = '\\'
  · simp [hback, templateEnd]
  by_cases hbrace : c = '$' ∧ e = '\x7b'
  · obtain ⟨rfl, rfl⟩ := hbrace
    simp [templateEnd]
  · rw [templateEnd_cons_of_ne hback (fun r' hdollar hr => hbrace ⟨hdollar, (List.cons.inj hr).1⟩),
      if_neg (by simpa using hc)]
    omega

theorem templateEnd_settled {d : Nat} (h : templateEnd d (y ++ u) = y.length) :
    u = [] ∨ ∀ u', templateEnd d (y ++ u') = y.length := by
  fun_induction templateEnd d y with
  | case1 d => exact .inl (eq_nil_of_templateEnd_eq_zero h)
  | case2 c cs ih =>
      simp only [List.cons_append, templateEnd, List.length_cons, Nat.add_right_cancel_iff] at h ⊢
      exact ih h
  | case3 cs ih =>
      simp only [List.cons_append, templateEnd, List.length_cons, Nat.add_right_cancel_iff] at h ⊢
      exact ih h
  | case4 c cs hesc hbrace hc =>
      obtain rfl := beq_iff_eq.mp hc
      have hend (u' : Text) : templateEnd 0 (ch '\x60' :: cs ++ u') = 1 := by simp [templateEnd]
      rw [hend u] at h
      exact .inr fun u' => (hend u').trans h
  | case5 c cs hesc hbrace hc ih =>
      cases cs with
      | nil =>
          cases u with
          | nil => exact .inl rfl
          | cons e r => exact absurd h (templateEnd_cons_cons_ne_one (by simpa using hc))
      | cons e cs =>
          have hback : c ≠ '\\' := fun heq => hesc e cs heq rfl
          have hplain (u' : Text) : ∀ r, c = '$' → e :: cs ++ u' = ch '\x7b' :: r → False := by
            intro r hdollar hr
            exact hbrace cs hdollar (by rw [(List.cons.inj hr).1])
          have hstep (u' : Text) : templateEnd 0 (c :: e :: cs ++ u') =
              templateEnd 0 (e :: cs ++ u') + 1 := by
            rw [List.cons_append, templateEnd_cons_of_ne hback (hplain u'), if_neg hc]
          rw [hstep, List.length_cons, Nat.add_right_cancel_iff] at h
          exact (ih h).imp id fun hall u' => by rw [hstep, hall u']; rfl
  | case6 d c cs hc ih =>
      simp only [List.cons_append, templateEnd, hc, if_true, List.length_cons,
        Nat.add_right_cancel_iff] at h ⊢
      exact ih h
  | case7 d c cs hc hc' ih =>
      simp only [List.cons_append, templateEnd, hc, hc', if_true, Bool.false_eq_true, if_false,
        List.length_cons, Nat.add_right_cancel_iff] at h ⊢
      exact ih h
  | case8 d c cs hc hc' ih =>
      simp only [List.cons_append, templateEnd, hc, hc', Bool.false_eq_true, if_false,
        List.length_cons, Nat.add_right_cancel_iff] at h ⊢
      exact ih h

theorem not_startsTriple_of_yields {u' : Text} (hq : isQuote q = true)
    (h : quotedEnd q (y ++ u) = y.length) (hopen : ¬ startsTriple q (q :: (y ++ u)) = true)
    (hy : Yields u u') : ¬ startsTriple q (q :: (y ++ u')) = true := by
  match y with
  | [] =>
      have hend := hy.lineEnd (atLineEnd_of_quotedEnd_eq_zero h)
      have hne := ne_newline_of_isQuote hq
      cases u' with
      | nil => simp [startsTriple, List.isPrefixOf]
      | cons c u' =>
          obtain rfl : c = '\n' := by simpa [atLineEnd] using hend
          simp [startsTriple, List.isPrefixOf, hne]
  | [d] =>
      intro htriple
      have hhead : d = q ∧ u'.head? = some q := by
        cases u' with
        | nil => simp [startsTriple, List.isPrefixOf] at htriple
        | cons c u' =>
            simp only [startsTriple, List.isPrefixOf, List.cons_append, List.nil_append, Bool.and_eq_true,
              beq_iff_eq, Bool.and_true] at htriple
            exact ⟨htriple.2.1.symm, by rw [List.head?_cons, htriple.2.2]⟩
      obtain ⟨rfl, hu'⟩ := hhead
      obtain ⟨r, rfl⟩ : ∃ r, u = d :: r := by
        cases u with
        | nil => exact absurd (hy.quote d hq hu') (by simp)
        | cons c r => exact ⟨r, by rw [Option.some.inj (hy.quote d hq hu')]⟩
      exact hopen (by simp [startsTriple, List.isPrefixOf])
  | a :: b :: y => simpa [startsTriple, List.isPrefixOf] using hopen

theorem bodyLength_of_yields {triple : Bool} {u' : Text} (hq : isQuote q = true)
    (h : bodyLength triple q (y ++ u) = y.length) (hy : Yields u u') :
    bodyLength triple q (y ++ u') = y.length := by
  by_cases hu : u = []
  · rw [hy.textEnd hu]
    rwa [hu] at h
  rw [bodyLength] at h
  split at h
  · rename_i htick
    rw [bodyLength, if_pos htick]
    exact (templateEnd_settled h).resolve_left hu u'
  · rename_i htick
    split at h
    · rename_i htriple
      obtain ⟨a, b, y, rfl⟩ : ∃ a b z, y = a :: b :: z := by
        have hlen : 2 ≤ y.length := by omega
        rcases y with _ | ⟨a, _ | ⟨b, z⟩⟩
        · simp at hlen
        · simp at hlen
        · exact ⟨a, b, z, rfl⟩
      have hopen : triple && startsTriple q (q :: (a :: b :: y ++ u')) := by
        simpa [startsTriple, List.isPrefixOf] using htriple
      have hrest : tripleEnd q (y ++ u) = y.length := Nat.add_right_cancel h
      rw [bodyLength, if_neg htick, if_pos hopen]
      exact congrArg (· + 2) (((tripleEnd_settled hq hrest).resolve_left hu).2 u')
    · rename_i htriple
      have hend := (quotedEnd_settled hq h).resolve_left hu u' hy.lineEnd
      have hopen : ¬ (triple && startsTriple q (q :: (y ++ u'))) = true := by
        rw [Bool.and_eq_true, not_and] at htriple ⊢
        exact fun ht => not_startsTriple_of_yields hq h (htriple ht) hy
      rw [bodyLength, if_neg htick, if_neg hopen, hend]

end Ends

def Slot.piece (lit : Nat → Text) : Slot → Piece
  | .char c => .plain c
  | .hole i => .literal (lit i)

def Lexes (triple : Bool) (lit : Nat → Text) : Row → Prop
  | [] => True
  | .char c :: σ => isQuote c = false ∧ Lexes triple lit σ
  | .hole i :: σ => (∃ q y, lit i = q :: y ∧ isQuote q = true ∧
      bodyLength triple q (y ++ fill lit σ) = y.length) ∧ Lexes triple lit σ

section Lexes

variable {triple : Bool} {lit : Nat → Text} {σ τ : Row}

theorem split_fill (h : Lexes triple lit σ) : split triple (fill lit σ) = σ.map (Slot.piece lit) := by
  induction σ with
  | nil => simp [split]
  | cons x σ ih =>
      cases x with
      | char c =>
          rw [fill_char, split, h.1, if_neg Bool.false_ne_true, ih h.2]
          rfl
      | hole i =>
          obtain ⟨⟨q, y, hlit, hq, hbody⟩, hrest⟩ := h
          rw [fill_hole, hlit, List.cons_append, split, if_pos hq]
          simp only [hbody, List.take_left, List.drop_left, ih hrest]
          rw [← hlit]
          rfl

theorem literals_map_piece (lit : Nat → Text) (σ : Row) :
    literals (σ.map (Slot.piece lit)) = (holes σ).map lit := by
  induction σ with
  | nil => rfl
  | cons x σ ih =>
      cases x with
      | char c => exact ih
      | hole i => exact congrArg (lit i :: ·) ih

theorem number_map_piece {i n : Nat} (h : holes σ = List.range' i n) :
    number i (σ.map (Slot.piece lit)) = σ := by
  induction σ generalizing i n with
  | nil => rfl
  | cons x σ ih =>
      cases x with
      | char c => exact congrArg (.char c :: ·) (ih h)
      | hole j =>
          cases n with
          | zero => simp at h
          | succ n =>
              rw [holes_hole, List.range'_succ] at h
              obtain ⟨rfl, hrest⟩ := List.cons.inj h
              exact congrArg (.hole j :: ·) (ih hrest)

theorem Lexes.suffix (h : Lexes triple lit (σ ++ τ)) : Lexes triple lit τ := by
  induction σ with
  | nil => exact h
  | cons x σ ih =>
      cases x with
      | char c => exact ih h.2
      | hole i => exact ih h.2

theorem lexes_number {t : Text} (i : Nat)
    (h : ∀ j x, (literals (split triple t))[j]? = some x → lit (i + j) = x) :
    Lexes triple lit (number i (split triple t)) := by
  revert i
  fun_induction split triple t with
  | case1 =>
      intro i _
      trivial
  | case2 c cs hc n ih =>
      intro i h
      have hrest : ∀ j x, (literals (split triple (cs.drop n)))[j]? = some x → lit (i + 1 + j) = x :=
        forall_literals_tail (P := fun j x => lit j = x) h
      refine ⟨⟨c, cs.take n, h 0 _ rfl, hc, ?_⟩, ih (i + 1) hrest⟩
      rw [fill_number hrest, flatMap_text_split, List.take_append_drop, List.length_take]
      exact (Nat.min_eq_left (bodyLength_le triple c cs)).symm
  | case3 c cs hc ih =>
      intro i h
      exact ⟨by simpa using hc, ih i h⟩

theorem Shields.lexes {t : Text} {s : Shielded} (h : Shields triple t s) :
    Lexes triple s.literal (slots triple t) := by
  refine lexes_number 0 (fun j x hx => ?_)
  rw [Nat.zero_add, Shielded.literal, h.spans_eq, List.getElem?_toArray, hx, Option.getD_some]

end Lexes

inductive Respaced : Row → Row → Prop where
  | nil : Respaced [] []
  | keep {σ' σ : Row} (x : Slot) : Respaced σ' σ → Respaced (x :: σ') (x :: σ)
  | blank {σ' σ : Row} {c : CodePoint} : isInlineBlank c = true → Respaced σ' σ →
      Respaced (.char ' ' :: σ') (.char c :: σ)
  | drop {σ' σ : Row} {c : CodePoint} : (∀ i, σ'.head? ≠ some (.hole i)) →
      (c = '\n' → slotAtLineEnd σ' = true) → Respaced σ' σ → Respaced σ' (.char c :: σ)

theorem head?_ne_hole_of_slotAtLineEnd {σ : Row} (h : slotAtLineEnd σ = true) (i : Nat) :
    σ.head? ≠ some (.hole i) := by
  cases σ with
  | nil => simp
  | cons x σ => cases x with
    | char c => simp
    | hole j => simp [slotAtLineEnd] at h

namespace Respaced

variable {triple : Bool} {lit : Nat → Text} {σ σ' τ τ' : Row}

theorem append_left (ρ : Row) (h : Respaced τ' τ) : Respaced (ρ ++ τ') (ρ ++ τ) := by
  induction ρ with
  | nil => exact h
  | cons x ρ ih => exact .keep x ih

theorem drop_atLineEnd (w : Text) (h : Respaced τ' τ) (hend : slotAtLineEnd τ' = true) :
    Respaced τ' (ofText w ++ τ) := by
  induction w with
  | nil => exact h
  | cons c w ih => exact .drop (head?_ne_hole_of_slotAtLineEnd hend) (fun _ => hend) ih

theorem space {w : Text} (hw : ∀ c ∈ w, isInlineBlank c = true) (hne : w ≠ []) (h : Respaced τ' τ) :
    Respaced (.char ' ' :: τ') (ofText w ++ τ) := by
  induction w with
  | nil => exact absurd rfl hne
  | cons c w ih =>
      have hc := hw c (List.mem_cons_self ..)
      cases w with
      | nil => exact .blank hc h
      | cons d w =>
          have hrest := ih (fun b hb => hw b (List.mem_cons_of_mem _ hb)) (List.cons_ne_nil _ _)
          refine .drop (fun i => by simp) ?_ hrest
          rintro rfl
          simp [isInlineBlank] at hc

theorem yields (h : Respaced σ' σ) (hσ : Lexes triple lit σ) (hσ' : Lexes triple lit σ') :
    Yields (fill lit σ) (fill lit σ') := by
  cases h with
  | nil => exact ⟨fun _ => rfl, id, fun _ _ => id⟩
  | keep x h =>
      cases x with
      | char c => exact ⟨fun hnil => by simp at hnil, id, fun _ _ => id⟩
      | hole i =>
          obtain ⟨⟨q, y, hlit, -, -⟩, -⟩ := hσ
          rw [fill_hole, fill_hole, hlit]
          exact ⟨fun hnil => by simp at hnil, id, fun _ _ => id⟩
  | blank hc h =>
      refine ⟨fun hnil => by simp at hnil, fun hend => ?_, fun q hq hhead => ?_⟩
      · obtain rfl := beq_iff_eq.mp hend
        simp [isInlineBlank] at hc
      · obtain rfl := Option.some.inj hhead
        exact absurd hq (by decide)
  | drop hhole hnewline h =>
      refine ⟨fun hnil => by simp at hnil, fun hend => ?_, fun q hq hhead => ?_⟩
      · have hend' := hnewline (beq_iff_eq.mp hend)
        cases σ' with
        | nil => rfl
        | cons x σ' =>
            cases x with
            | char c => exact hend'
            | hole i => exact absurd rfl (hhole i)
      · cases σ' with
        | nil => simp at hhead
        | cons x σ' =>
            cases x with
            | char c =>
                obtain rfl := Option.some.inj hhead
                rw [hσ'.1] at hq
                exact absurd hq Bool.false_ne_true
            | hole i => exact absurd rfl (hhole i)

theorem lexes (h : Respaced σ' σ) (hσ : Lexes triple lit σ) : Lexes triple lit σ' := by
  induction h with
  | nil => exact hσ
  | keep x h ih =>
      cases x with
      | char c => exact ⟨hσ.1, ih hσ.2⟩
      | hole i =>
          obtain ⟨⟨q, y, hlit, hq, hbody⟩, hrest⟩ := hσ
          exact ⟨⟨q, y, hlit, hq, bodyLength_of_yields hq hbody (h.yields hrest (ih hrest))⟩, ih hrest⟩
  | blank hc h ih => exact ⟨by decide, ih hσ.2⟩
  | drop hhole hnewline h ih => exact ih hσ.2

end Respaced

end CodeCompaction.Literal
