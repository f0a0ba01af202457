import Mathlib.Tactic.SplitIfs
import CodeCompaction.Proofs.Literal.RoundTrip
import CodeCompaction.Proofs.Literal.Rows

namespace CodeCompaction.Literal

open CodeCompaction.Text

variable {triple : Bool}

theorem split_of_split_append {t : Text} {ps qs : List Piece} (h : split triple t = ps ++ qs) :
    split triple (qs.flatMap Piece.text) = qs := by
  induction ps generalizing t with
  | nil =>
      rw [List.nil_append] at h
      rw [← h, flatMap_text_split]
  | cons p ps ih =>
      cases t with
      | nil => simp [split] at h
      | cons c cs =>
          rw [split] at h
          split at h
          · rw [List.cons_append] at h
            exact ih (List.cons.inj h).2
          · rw [List.cons_append] at h
            exact ih (List.cons.inj h).2

structure PartsAt (triple : Bool) (a u : Text) (ps : List Piece) : Prop where
  text_eq : ps.flatMap Piece.text = a
  newline : ∃ qs, split triple (a ++ ch '\n' :: u) = ps ++ .plain '\n' :: qs

namespace PartsAt

variable {a u : Text} {ps : List Piece}

theorem split_eq (h : PartsAt triple a u ps) :
    split triple (a ++ ch '\n' :: u) = ps ++ .plain '\n' :: split triple u := by
  obtain ⟨qs, hqs⟩ := h.newline
  have htext := flatMap_text_split triple (a ++ ch '\n' :: u)
  rw [hqs, List.flatMap_append, h.text_eq, List.append_cancel_left_eq] at htext
  have hu : qs.flatMap Piece.text = u := (List.cons.inj htext).2
  have hcut : split triple (a ++ ch '\n' :: u) = (ps ++ [.plain '\n']) ++ qs := by
    rw [hqs, List.append_assoc, List.singleton_append]
  have hrest := split_of_split_append hcut
  rw [hu] at hrest
  rw [hqs, hrest]

theorem slots_eq (h : PartsAt triple a u ps) : slots triple (a ++ ch '\n' :: u) =
    number 0 ps ++ .char '\n' :: (slots triple u).map (Slot.renumber ((literals ps).length + ·)) := by
  rw [slots, h.split_eq, number_append, Nat.zero_add, slots, ← number_eq_renumber]
  rfl

theorem exists_of_no_quote {w c : Text} (h : PartsAt triple (w ++ c) u ps)
    (hw : w.any isQuote = false) :
    ∃ ks, ps = w.map .plain ++ ks ∧ ks.flatMap Piece.text = c := by
  have hsplit := h.split_eq
  rw [List.append_assoc, split_append_of_no_quote hw] at hsplit
  rcases List.append_eq_append_iff.mp hsplit with ⟨ks, hps, -⟩ | ⟨ks, hws, hks⟩
  · refine ⟨ks, hps, ?_⟩
    have htext := h.text_eq
    rwa [hps, List.flatMap_append, flatMap_text_map_plain, List.append_cancel_left_eq] at htext
  · -- the pieces say at least what the front says, so nothing of it stands behind them
    have hlen := congrArg List.length h.text_eq
    have hw' := congrArg List.length (flatMap_text_map_plain w)
    rw [hws, List.flatMap_append, List.length_append, hlen] at hw'
    simp only [List.length_append] at hw'
    have hempty : ks.flatMap Piece.text = [] := List.eq_nil_of_length_eq_zero (by omega)
    have hc : c = [] := List.eq_nil_of_length_eq_zero (by omega)
    cases ks with
    | nil => exact ⟨[], by rw [hws, List.append_nil, List.append_nil], hc.symm⟩
    | cons k ks =>
        rw [List.cons_append] at hks
        obtain ⟨rfl, -⟩ := List.cons.inj hks
        simp [Piece.text] at hempty

end PartsAt

namespace Shields

variable {s : Shielded} {a u : Text} {ps : List Piece}

theorem text_partsAt (h : Shields triple (a ++ ch '\n' :: u) s) (hp : PartsAt triple a u ps) :
    s.text = renderFrom s.mark 0 ps ++
      ch '\n' :: fill (s.seat ((literals ps).length + ·)) (slots triple u) := by
  rw [h.text_eq, hp.slots_eq, fill_append, fill_char, fill_renumber, renderFrom_eq_fill]
  rfl

theorem spans_partsAt (h : Shields triple (a ++ ch '\n' :: u) s) (hp : PartsAt triple a u ps) (j : Nat) :
    s.spans[(literals ps).length + j]? = (literals (split triple u))[j]? := by
  have hlit : literals (split triple (a ++ ch '\n' :: u)) = literals ps ++ literals (split triple u) := by
    rw [hp.split_eq, literals, List.filterMap_append]
    rfl
  rw [h.spans_eq, hlit, List.getElem?_toArray, List.getElem?_append_right (Nat.le_add_right ..),
    Nat.add_sub_cancel_left]

theorem exists_renderFrom_partsAt {w c : Text} (h : Shields triple (w ++ c ++ ch '\n' :: u) s)
    (hp : PartsAt triple (w ++ c) u ps) (hw : w.any isQuote = false) (hc : ch '\n' ∉ c) :
    ∃ k, ch '\n' ∉ k ∧ renderFrom s.mark 0 ps = w ++ k := by
  obtain ⟨ks, rfl, hks⟩ := hp.exists_of_no_quote hw
  refine ⟨fill (placeholder s.mark) (number 0 ks), ?_, ?_⟩
  · rw [mem_fill]
    rintro (hchar | ⟨i, -, hmem⟩)
    · exact hc (hks ▸ List.mem_flatMap.mpr ⟨_, char_mem_number hchar, List.mem_singleton.mpr rfl⟩)
    · exact newline_not_mem_of_hides (hides_placeholder h.sentinel_mem id) i hmem
  · rw [renderFrom_eq_fill, number_append, number_map_plain, literals_map_plain, fill_append,
      fill_ofText]
    rfl

theorem restore_partsAt (h : Shields triple (a ++ ch '\n' :: u) s) (hp : PartsAt triple a u ps)
    {ω : Row} (hchar : s.sentinel ∉ a ++ ch '\n' :: u → Slot.char s.sentinel ∉ ω)
    (hholes : (holes ω).Sublist (holes (slots triple u))) :
    s.restore (fill (s.seat ((literals ps).length + ·)) ω) =
      fill (fun j => ((literals (split triple u))[j]?).getD []) ω := by
  refine Shielded.restore_fill (h.absent.imp id hchar) ?_
  intro j hj
  have hmem := hholes.subset (mem_holes.mpr hj)
  rw [slots, holes_number, List.mem_range'_1, Nat.zero_add] at hmem
  rw [h.spans_partsAt hp, List.getElem?_eq_getElem hmem.2, Option.getD_some]

end Shields

section Front

variable {q c : CodePoint}

theorem quotedEnd_cons_of_ne (q : CodePoint) (hc : c ≠ '\\') (t : Text) : quotedEnd q (c :: t) =
    if c == q then 1 else if c == '\n' then 0 else quotedEnd q t + 1 := by
  simp [quotedEnd, hc]

theorem tripleEnd_cons_of_ne (q : CodePoint) (hc : c ≠ '\\') (t : Text) : tripleEnd q (c :: t) =
    if startsTriple q (c :: t) then 3 else tripleEnd q t + 1 := by
  simp [tripleEnd, hc]

theorem templateEnd_cons_of_ne {t : Text} (hc : c ≠ '\\') (hbrace : ∀ r, c = '$' → t = ch '\x7b' :: r → False) :
    templateEnd 0 (c :: t) = if c == '\x60' then 1 else templateEnd 0 t + 1 :=
  templateEnd.eq_4 c t (fun _ _ h => absurd h hc) hbrace

theorem eq_nil_of_no_escape {t : Text} (h : ∀ d r, c = '\\' → t = d :: r → False) (hc : c = '\\') : t = [] := by
  cases t with
  | nil => rfl
  | cons d r => exact (h d r hc rfl).elim

theorem quotedEnd_of_le (hq : q ≠ '\n') {a : Text} (u : Text)
    (h : quotedEnd q (a ++ ch '\n' :: u) ≤ a.length) :
    quotedEnd q (a ++ ch '\n' :: u) = quotedEnd q a := by
  induction a using quotedEnd.induct q with
  | case1 => simpa [quotedEnd] using h
  | case2 d cs ih =>
      simp only [List.cons_append, quotedEnd, List.length_cons] at h ⊢
      rw [ih (by omega)]
  | case3 c cs hesc hc =>
      by_cases hback : c = '\\'
      · obtain rfl := eq_nil_of_no_escape hesc hback
        simp [hback, quotedEnd] at h
      · simp [quotedEnd, hback, hc]
  | case4 c cs hesc hc hn =>
      obtain rfl := beq_iff_eq.mp hn
      simp [quotedEnd, Ne.symm hq]
  | case5 c cs hesc hc hn ih =>
      by_cases hback : c = '\\'
      · obtain rfl := eq_nil_of_no_escape hesc hback
        simp [hback, quotedEnd] at h
      · rw [List.cons_append, quotedEnd_cons_of_ne q hback, if_neg hc, if_neg hn] at h ⊢
        rw [quotedEnd_cons_of_ne q hback, if_neg hc, if_neg hn, ih (Nat.le_of_succ_le_succ h)]

theorem startsTriple_append_newline (hq : q ≠ '\n') (a u : Text) :
    startsTriple q (a ++ ch '\n' :: u) = startsTriple q a := by
  match a with
  | [] => simp [startsTriple, List.isPrefixOf, hq]
  | [c] => simp [startsTriple, List.isPrefixOf, hq]
  | [c, d] => simp [startsTriple, List.isPrefixOf, hq]
  | c :: d :: e :: a => simp [startsTriple, List.isPrefixOf]

theorem tripleEnd_of_le (hq : q ≠ '\n') {a : Text} (u : Text)
    (h : tripleEnd q (a ++ ch '\n' :: u) ≤ a.length) : tripleEnd q (a ++ ch '\n' :: u) = tripleEnd q a := by
  induction a using tripleEnd.induct q with
  | case1 =>
      rw [List.nil_append, tripleEnd_cons_of_ne q (by decide)] at h
      split at h <;> simp at h
  | case2 d cs ih =>
      simp only [List.cons_append, tripleEnd, List.length_cons] at h ⊢
      rw [ih (by omega)]
  | case3 c cs hesc hc =>
      by_cases hback : c = '\\'
      · obtain rfl := eq_nil_of_no_escape hesc hback
        simp [hback, tripleEnd] at h
      · rw [List.cons_append, tripleEnd_cons_of_ne q hback, ← List.cons_append,
          startsTriple_append_newline hq, if_pos hc, tripleEnd_cons_of_ne q hback, if_pos hc]
  | case4 c cs hesc hc ih =>
      by_cases hback : c = '\\'
      · obtain rfl := eq_nil_of_no_escape hesc hback
        simp [hback, tripleEnd] at h
      · rw [List.cons_append, tripleEnd_cons_of_ne q hback, ← List.cons_append,
          startsTriple_append_newline hq, if_neg hc] at h ⊢
        rw [tripleEnd_cons_of_ne q hback, if_neg hc, ih (Nat.le_of_succ_le_succ h)]

theorem templateEnd_of_le {d : Nat} {a : Text} (u : Text)
    (h : templateEnd d (a ++ ch '\n' :: u) ≤ a.length) : templateEnd d (a ++ ch '\n' :: u) = templateEnd d a := by
  fun_induction templateEnd d a with
  | case1 d => cases d <;> simp [templateEnd] at h
  | case2 c cs ih =>
      simp only [List.cons_append, templateEnd, List.length_cons] at h ⊢
      rw [ih (by omega)]
  | case3 cs ih =>
      simp only [List.cons_append, templateEnd, List.length_cons] at h ⊢
      rw [ih (by omega)]
  | case4 c cs _ _ hc =>
      obtain rfl := beq_iff_eq.mp hc
      simp [templateEnd]
  | case5 c cs hesc hbrace hc ih =>
      by_cases hback : c = '\\'
      · obtain rfl := eq_nil_of_no_escape hesc hback
        simp [hback, templateEnd] at h
      · have hplain : ∀ r, c = '$' → cs ++ ch '\n' :: u = ch '\x7b' :: r → False := by
          intro r hdollar hr
          cases cs with
          | nil => simp at hr
          | cons d cs => exact hbrace cs hdollar (by rw [(List.cons.inj hr).1])
        rw [List.cons_append, templateEnd_cons_of_ne hback hplain, if_neg hc] at h ⊢
        rw [ih (Nat.le_of_succ_le_succ h)]
  | case6 d c cs hc ih =>
      simp only [List.cons_append, templateEnd, hc, if_true, List.length_cons] at h ⊢
      rw [ih (by omega)]
  | case7 d c cs hc hc' ih =>
      simp only [List.cons_append, templateEnd, hc, hc', if_true, Bool.false_eq_true, if_false,
        List.length_cons] at h ⊢
      rw [ih (by omega)]
  | case8 d c cs hc hc' ih =>
      simp only [List.cons_append, templateEnd, hc, hc', Bool.false_eq_true, if_false,
        List.length_cons] at h ⊢
      rw [ih (by omega)]

theorem bodyLength_of_le (hq : isQuote q = true) {a : Text} (u : Text)
    (h : bodyLength triple q (a ++ ch '\n' :: u) ≤ a.length) :
    bodyLength triple q (a ++ ch '\n' :: u) = bodyLength triple q a := by
  have hne : q ≠ '\n' := by
    rintro rfl
    exact absurd hq (by decide)
  have hstart : startsTriple q (q :: (a ++ ch '\n' :: u)) = startsTriple q (q :: a) :=
    startsTriple_append_newline hne (q :: a) u
  rw [bodyLength, hstart] at h ⊢
  rw [bodyLength]
  split_ifs at h ⊢ with htick htriple
  · exact templateEnd_of_le u h
  · have hlen := startsTriple_length (Bool.and_eq_true_iff.mp htriple).2
    rw [List.length_cons] at hlen
    have hdrop : (a ++ ch '\n' :: u).drop 2 = a.drop 2 ++ ch '\n' :: u := List.drop_append_of_le_length (by omega)
    rw [hdrop] at h ⊢
    rw [tripleEnd_of_le hne u (by rw [List.length_drop]; omega)]
  · exact quotedEnd_of_le hne u h

theorem split_front {a u : Text} {ps qs : List Piece} (htext : ps.flatMap Piece.text = a)
    (h : split triple (a ++ ch '\n' :: u) = ps ++ .plain '\n' :: qs) : split triple a = ps := by
  induction ps generalizing a with
  | nil =>
      obtain rfl : a = [] := htext.symm
      rw [split]
  | cons p ps ih =>
      rw [List.flatMap_cons] at htext
      cases a with
      | nil =>
          rw [List.nil_append, split, if_neg (by decide), List.cons_append] at h
          obtain rfl := (List.cons.inj h).1
          exact absurd htext (by simp [Piece.text])
      | cons c cs =>
          rw [List.cons_append, split, List.cons_append] at h
          rw [split]
          split at h
          · rename_i hc
            rw [if_pos hc]
            obtain ⟨rfl, hrest⟩ := List.cons.inj h
            rw [Piece.text, List.cons_append] at htext
            have hcs := (List.cons.inj htext).2
            have hlen : bodyLength triple c (cs ++ ch '\n' :: u) ≤ cs.length := by
              have := congrArg List.length hcs
              rw [List.length_append, List.length_take, List.length_append, List.length_cons] at this
              omega
            have hbody := bodyLength_of_le hc u hlen
            rw [hbody] at hlen hcs hrest
            rw [List.drop_append_of_le_length hlen] at hrest
            rw [List.take_append_of_le_length hlen] at hcs
            have hps := hcs.trans (List.take_append_drop (bodyLength triple c cs) cs).symm
            simp only [hbody, List.take_append_of_le_length hlen]
            rw [ih (List.append_cancel_left hps) hrest]
          · rename_i hc
            rw [if_neg hc]
            obtain ⟨rfl, hrest⟩ := List.cons.inj h
            rw [ih (List.cons.inj htext).2 hrest]

theorem PartsAt.split_front_eq {a u : Text} {ps : List Piece} (h : PartsAt triple a u ps) :
    split triple a = ps :=
  split_front h.text_eq h.split_eq

end Front
end CodeCompaction.Literal
