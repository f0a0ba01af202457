import CodeCompaction.Proofs.Literal.Follow
import CodeCompaction.Proofs.Literal.RoundTrip
import CodeCompaction.Proofs.Literal.Standing

namespace CodeCompaction.Literal

open CodeCompaction.Text

theorem exists_take_cons {c : CodePoint} {t a : Text} {n : Nat} (h : ∃ b, t.take n = b ++ a) :
    ∃ b, (c :: t).take (n + 1) = b ++ a := by
  obtain ⟨b, hb⟩ := h
  exact ⟨c :: b, by rw [List.take_succ_cons, hb, List.cons_append]⟩

theorem quotedEnd_ends (q : CodePoint) (t : Text) : (∃ b, t.take (quotedEnd q t) = b ++ [q]) ∨
    atLineEnd (t.drop (quotedEnd q t)) = true := by
  fun_induction quotedEnd q t with
  | case1 => exact .inr rfl
  | case2 d cs ih => exact ih.imp (fun h => exists_take_cons (exists_take_cons h)) id
  | case3 c cs _ hc =>
      obtain rfl : c = q := by simpa using hc
      exact .inl ⟨[], rfl⟩
  | case4 c cs _ _ hc => exact .inr hc
  | case5 c cs _ _ _ ih => exact ih.imp exists_take_cons id

theorem jointed_take_quotedEnd {q : CodePoint} (hq : q ≠ '\n') (d : CodePoint) (t : Text) :
    Jointed (d :: t.take (quotedEnd q t)) := by
  fun_induction quotedEnd q t generalizing d with
  | case1 => exact .singleton d
  | case2 c cs ih => exact .cons_cons (by simp) (.cons_cons (fun _ => rfl) (ih c))
  | case3 c cs _ hc =>
      obtain rfl : c = q := by simpa using hc
      exact .cons_cons (fun h => absurd h hq) (.singleton c)
  | case4 c cs _ _ hc => exact .singleton d
  | case5 c cs _ _ hc ih => exact .cons_cons (fun h => absurd h (by simpa using hc)) (ih c)

theorem tripleEnd_ends (q : CodePoint) (t : Text) : (∃ b, t.take (tripleEnd q t) = b ++ [q]) ∨
    t.drop (tripleEnd q t) = [] := by
  fun_induction tripleEnd q t with
  | case1 => exact .inr rfl
  | case2 d cs ih => exact ih.imp (fun h => exists_take_cons (exists_take_cons h)) id
  | case3 c cs _ h =>
      obtain ⟨u, hu⟩ := List.isPrefixOf_iff_prefix.mp h
      exact .inl ⟨[q, q], by rw [← hu]; rfl⟩
  | case4 c cs _ _ ih => exact ih.imp exists_take_cons id

theorem templateEnd_ends (d : Nat) (t : Text) : (∃ b, t.take (templateEnd d t) = b ++ [ch '\x60']) ∨
    t.drop (templateEnd d t) = [] := by
  fun_induction templateEnd d t with
  | case1 => exact .inr rfl
  | case2 c cs ih => exact ih.imp (fun h => exists_take_cons (exists_take_cons h)) id
  | case3 cs ih => exact ih.imp (fun h => exists_take_cons (exists_take_cons h)) id
  | case4 c cs _ _ hc =>
      obtain rfl : c = '\x60' := by simpa using hc
      exact .inl ⟨[], rfl⟩
  | case5 c cs _ _ _ ih => exact ih.imp exists_take_cons id
  | case6 d c cs _ ih => exact ih.imp exists_take_cons id
  | case7 d c cs _ _ ih => exact ih.imp exists_take_cons id
  | case8 d c cs _ _ ih => exact ih.imp exists_take_cons id

def Suits (x : Text) : Follow → Prop
  | .anything => endsFirm x = true
  | .lineEnd => Jointed x
  | .textEnd => True

theorem isFirm_of_isQuote {q : CodePoint} (h : isQuote q = true) : isFirm q = true := by
  simp only [isQuote, Bool.or_eq_true, beq_iff_eq] at h
  rcases h with (rfl | rfl) | rfl <;> decide

theorem endsFirm_of_closed {q c : CodePoint} {w : Text} (hq : isQuote q = true) (hw : ∃ b, w = b ++ [q]) :
    endsFirm (c :: w) = true := by
  obtain ⟨b, rfl⟩ := hw
  rw [← List.cons_append, endsFirm_append_singleton]
  exact isFirm_of_isQuote hq

theorem bodyLength_ends (triple : Bool) {q : CodePoint} (hq : isQuote q = true) (t : Text) :
    endsFirm (q :: t.take (bodyLength triple q t)) = true ∨
      (Jointed (q :: t.take (bodyLength triple q t)) ∧
        atLineEnd (t.drop (bodyLength triple q t)) = true) ∨
      t.drop (bodyLength triple q t) = [] := by
  have hnewline : q ≠ '\n' := (isFirm_iff.mp (isFirm_of_isQuote hq)).2
  unfold bodyLength
  split
  · rename_i htick
    rcases templateEnd_ends 0 t with hclosed | hopen
    · exact .inl (endsFirm_of_closed (by decide) hclosed)
    · exact .inr (.inr hopen)
  · split
    · rcases tripleEnd_ends q (t.drop 2) with ⟨b, hb⟩ | hopen
      · refine .inl (endsFirm_of_closed hq ⟨t.take 2 ++ b, ?_⟩)
        rw [Nat.add_comm, List.take_add, hb, List.append_assoc]
      · exact .inr (.inr (by rw [Nat.add_comm, ← List.drop_drop, hopen]))
    · rcases quotedEnd_ends q t with hclosed | hopen
      · exact .inl (endsFirm_of_closed hq hclosed)
      · exact .inr (.inl ⟨jointed_take_quotedEnd hnewline q t, hopen⟩)

theorem quoted_of_mem_literals {triple : Bool} {t x : Text} (h : x ∈ literals (split triple t)) :
    ∃ q y, x = q :: y ∧ isQuote q = true := by
  fun_induction split triple t with
  | case1 => simp at h
  | case2 c cs hc n ih =>
      rcases List.mem_cons.mp h with rfl | h
      · exact ⟨c, _, rfl, hc⟩
      · exact ih h
  | case3 c cs hc ih => exact ih h

theorem holds_lineEnd_of_atLineEnd (triple : Bool) (i : Nat) {t : Text} (h : atLineEnd t = true) :
    Follow.lineEnd.Holds (number i (split triple t)) := by
  cases t with
  | nil => exact .inl (by simp [split, number])
  | cons c t =>
      obtain rfl : c = '\n' := by simpa [atLineEnd] using h
      exact .inr (by simp [split, isQuote, number])

theorem keeps_number {triple : Bool} {t : Text} {lit : Nat → Text} (i : Nat)
    (h : ∀ j x, (literals (split triple t))[j]? = some x → lit (i + j) = x) :
    Keeps (fun k => Suits (lit k)) (number i (split triple t)) := by
  revert i
  fun_induction split triple t with
  | case1 =>
      intro i _
      trivial
  | case2 c cs hc n ih =>
      intro i h
      have hlit : lit i = c :: cs.take n := h 0 _ rfl
      refine ⟨?_, ih (i + 1) (forall_literals_tail (P := fun j x => lit j = x) h)⟩
      · change ∃ f, Suits (lit i) f ∧ f.Holds (number (i + 1) (split triple (cs.drop n)))
        rw [hlit]
        rcases bodyLength_ends triple hc cs with hfirm | ⟨hjoint, hend⟩ | hend
        · exact ⟨.anything, hfirm, trivial⟩
        · exact ⟨.lineEnd, hjoint, holds_lineEnd_of_atLineEnd triple _ hend⟩
        · refine ⟨.textEnd, trivial, ?_⟩
          have hrest : cs.drop n = [] := hend
          rw [hrest]
          simp [split, number, Follow.Holds]
  | case3 c cs hc ih => exact ih

theorem Shields.keeps {triple : Bool} {t : Text} {s : Shielded} (h : Shields triple t s) :
    Keeps (fun k => Suits (s.literal k)) (slots triple t) := by
  refine keeps_number 0 (fun j x hx => ?_)
  rw [Nat.zero_add, Shielded.literal, h.spans_eq, List.getElem?_toArray, hx, Option.getD_some]

end CodeCompaction.Literal
