import CodeCompaction.Proofs.Minify.Generic
import CodeCompaction.Proofs.Text.Search
import CodeCompaction.Proofs.Text.Words

namespace CodeCompaction.Minify

open CodeCompaction.Text

def tagsMeet (v w : Text) : Bool := v.getLast? == some (ch '>') && w.head? == some (ch '<')

def joinTags : List Text → Text
  | [] => []
  | [w] => w
  | v :: w :: ws => v ++ ((if tagsMeet v w then [] else [ch ' ']) ++ joinTags (w :: ws))

def mergeTags : List Text → List Text
  | [] => []
  | w :: ws =>
      match mergeTags ws with
      | [] => [w]
      | v :: vs => if tagsMeet w v then (w ++ v) :: vs else w :: v :: vs

section Merge

variable {u v w : Text} {us ws : List Text}

theorem tagsMeet_append_left (hv : v ≠ []) (u w : Text) : tagsMeet (u ++ v) w = tagsMeet v w := by
  rw [tagsMeet, tagsMeet, List.getLast?_append_of_ne_nil _ hv]

theorem tagsMeet_append_right (hv : v ≠ []) (u w : Text) : tagsMeet w (v ++ u) = tagsMeet w v := by
  rw [tagsMeet, tagsMeet, List.head?_append_of_ne_nil _ hv]

theorem exists_mergeTags_cons (v : Text) (ws : List Text) : ∃ u us, mergeTags (v :: ws) = (v ++ u) :: us := by
  rw [mergeTags]
  split
  · exact ⟨[], [], by rw [List.append_nil]⟩
  · split
    · exact ⟨_, _, rfl⟩
    · exact ⟨[], _, by rw [List.append_nil]⟩

theorem mergeTags_of_meet (hv : v ≠ []) (hmeet : tagsMeet w v = true) (h : mergeTags (v :: ws) = u :: us) :
    mergeTags (w :: v :: ws) = (w ++ u) :: us := by
  obtain ⟨x, us', hx⟩ := exists_mergeTags_cons v ws
  obtain ⟨rfl, -⟩ := List.cons.inj (h.symm.trans hx)
  rw [mergeTags, h]
  simp only [tagsMeet_append_right hv, hmeet, if_true]

theorem mergeTags_of_not_meet (hv : v ≠ []) (hmeet : tagsMeet w v = false) :
    mergeTags (w :: v :: ws) = w :: mergeTags (v :: ws) := by
  obtain ⟨x, us, hx⟩ := exists_mergeTags_cons v ws
  rw [mergeTags, hx]
  simp only [tagsMeet_append_right hv, hmeet, Bool.false_eq_true, if_false]

theorem flatten_mergeTags (ws : List Text) : (mergeTags ws).flatten = ws.flatten := by
  induction ws with
  | nil => rfl
  | cons w ws ih =>
      rw [mergeTags, List.flatten_cons, ← ih]
      split
      · simp_all
      · rename_i v vs hvs
        rw [hvs]
        split <;> simp

theorem isWord_mergeTags (h : ∀ w ∈ ws, IsWord w) : ∀ w ∈ mergeTags ws, IsWord w := by
  induction ws with
  | nil => exact h
  | cons w ws ih =>
      obtain ⟨hw, hws⟩ := List.forall_mem_cons.mp h
      have hrest := ih hws
      rw [mergeTags]
      split
      · simpa using hw
      · rename_i v vs hvs
        rw [hvs] at hrest
        obtain ⟨hv, hvs⟩ := List.forall_mem_cons.mp hrest
        split
        · exact List.forall_mem_cons.mpr ⟨hw.append hv, hvs⟩
        · exact List.forall_mem_cons.mpr ⟨hw, hrest⟩

abbrev Apart (ws : List Text) : Prop := ws.IsChain (fun v w => tagsMeet v w = false)

theorem apart_mergeTags (h : ∀ w ∈ ws, IsWord w) : Apart (mergeTags ws) := by
  induction ws with
  | nil => exact .nil
  | cons w ws ih =>
      obtain ⟨hw, hws⟩ := List.forall_mem_cons.mp h
      have hrest := ih hws
      have hwords := isWord_mergeTags hws
      rw [mergeTags]
      split
      · exact .singleton w
      · rename_i v vs hvs
        rw [hvs] at hrest hwords
        have hv := (hwords v (List.mem_cons_self ..)).ne_nil
        cases hmeet : tagsMeet w v with
        | false => exact .cons_cons hmeet hrest
        | true =>
            rw [if_pos rfl]
            cases hrest with
            | singleton => exact .singleton _
            | cons_cons hfirst hrest => exact .cons_cons (by rwa [tagsMeet_append_left hv]) hrest

theorem mergeTags_of_apart (h : ∀ w ∈ ws, IsWord w) (hapart : Apart ws) : mergeTags ws = ws := by
  induction hapart with
  | nil => rfl
  | singleton w => rfl
  | cons_cons hmeet _ ih =>
      obtain ⟨-, hws⟩ := List.forall_mem_cons.mp h
      rw [mergeTags_of_not_meet (hws _ (List.mem_cons_self ..)).ne_nil hmeet, ih hws]

theorem unwords_mergeTags (h : ∀ w ∈ ws, IsWord w) : unwords (mergeTags ws) = joinTags ws := by
  induction ws with
  | nil => rfl
  | cons v ws ih =>
      obtain ⟨-, hws⟩ := List.forall_mem_cons.mp h
      cases ws with
      | nil => exact unwords_singleton v
      | cons w ws =>
          obtain ⟨x, us, hx⟩ := exists_mergeTags_cons w ws
          have hw := (hws w (List.mem_cons_self ..)).ne_nil
          rw [joinTags, ← ih hws]
          cases hmeet : tagsMeet v w with
          | true =>
              rw [mergeTags_of_meet hw hmeet hx, hx, if_pos rfl, List.nil_append]
              cases us with
              | nil => rw [unwords_singleton, unwords_singleton]
              | cons u us =>
                  rw [unwords_cons_of_ne_nil _ (List.cons_ne_nil _ _),
                    unwords_cons_of_ne_nil _ (List.cons_ne_nil _ _), List.append_assoc]
          | false =>
              rw [mergeTags_of_not_meet hw hmeet, unwords_cons_of_ne_nil _ (by simp [hx]),
                if_neg Bool.false_ne_true, List.singleton_append]

end Merge

section Rewrite

variable {c : CodePoint} {gap t v w : Text} {ws : List Text}

theorem betweenTags_flagless : betweenTags.Flagless := fun _ _ => rfl

theorem betweenTags_of_ne (hc : c ≠ '>') (t : Text) : betweenTags true (c :: t) = none := by
  unfold betweenTags
  split
  · rename_i h
    exact absurd (List.cons.inj h).1 hc
  · rfl

theorem betweenTags_of_head (h : (lstrip t).head? ≠ some (ch '<')) (c : CodePoint) :
    betweenTags true (c :: t) = none := by
  have hdrop : t.drop (t.takeWhile isBlank).length = lstrip t := by
    conv_lhs => arg 2; rw [← List.takeWhile_append_dropWhile (p := isBlank) (l := t)]
    exact List.drop_left
  by_cases hc : c = '>'
  · subst hc
    simp [betweenTags, hdrop, h]
  · exact betweenTags_of_ne hc t

theorem betweenTags_of_visible (hc : isBlank c = false) (d : CodePoint) (t : Text) :
    betweenTags true (d :: c :: t) = none := by
  by_cases hd : d = '>'
  · subst hd
    simp [betweenTags, hc]
  · exact betweenTags_of_ne hd (c :: t)

theorem betweenTags_of_gap (hgap : ∀ c ∈ gap, isBlank c = true) (hne : gap ≠ []) (t : Text) :
    betweenTags true (ch '>' :: (gap ++ ch '<' :: t)) = some (gap.length + 2, [ch '>', '<']) := by
  have htake : (gap ++ ch '<' :: t).takeWhile isBlank = gap := by
    rw [List.takeWhile_append_of_pos hgap, List.takeWhile_cons_of_neg (by decide), List.append_nil]
  simp [betweenTags, htake, hne]

theorem ne_bracket_of_blank (hc : isBlank c = true) : c ≠ '>' := by
  rintro rfl
  exact absurd hc (by decide)

theorem rewrite_gap_append (hgap : ∀ c ∈ gap, isBlank c = true) (t : Text) :
    rewrite betweenTags (gap ++ t) = gap ++ rewrite betweenTags t := by
  induction gap with
  | nil => rfl
  | cons c gap ih =>
      have hc := ne_bracket_of_blank (hgap c (List.mem_cons_self ..))
      rw [List.cons_append, rewrite_cons_of_none betweenTags_flagless (betweenTags_of_ne hc _),
        ih (fun d hd => hgap d (List.mem_cons_of_mem _ hd)), List.cons_append]

theorem startsBlank_rewrite (ht : startsBlank t = true) : startsBlank (rewrite betweenTags t) = true := by
  cases t with
  | nil => rfl
  | cons c t =>
      have hc := ne_bracket_of_blank (c := c) ht
      rwa [rewrite_cons_of_none betweenTags_flagless (betweenTags_of_ne hc t)]

theorem exists_rewrite_word_append (hw : IsWord w) (t : Text) : ∃ w' c, w = w' ++ [c] ∧
    rewrite betweenTags (w ++ t) = w' ++ rewrite betweenTags (c :: t) := by
  induction w with
  | nil => exact absurd rfl hw.ne_nil
  | cons d w ih =>
      cases w with
      | nil => exact ⟨[], d, rfl, rfl⟩
      | cons e w =>
          obtain ⟨-, hrest⟩ := List.forall_mem_cons.mp hw.visible
          obtain ⟨w', c, hwc, hrewrite⟩ := ih ⟨List.cons_ne_nil _ _, hrest⟩
          have he := betweenTags_of_visible (hrest e (List.mem_cons_self ..)) d (w ++ t)
          refine ⟨d :: w', c, congrArg (d :: ·) hwc, ?_⟩
          rw [List.cons_append, List.cons_append, rewrite_cons_of_none betweenTags_flagless he,
            ← List.cons_append, hrewrite, List.cons_append]

theorem rewrite_word_append_of_not_meet (hw : IsWord w) (h : tagsMeet w (lstrip t) = false) :
    rewrite betweenTags (w ++ t) = w ++ rewrite betweenTags t := by
  obtain ⟨w', c, rfl, hrewrite⟩ := exists_rewrite_word_append hw t
  have hnone : betweenTags true (c :: t) = none := by
    by_cases hhead : (lstrip t).head? = some (ch '<')
    · refine betweenTags_of_ne (fun hc => ?_) t
      simp [tagsMeet, hhead, hc] at h
    · exact betweenTags_of_head hhead c
  rw [hrewrite, rewrite_cons_of_none betweenTags_flagless hnone, List.append_assoc]
  rfl

theorem exists_rewrite_of_meet (hw : IsWord w) (hv : IsWord v) (hgap : ∀ c ∈ gap, isBlank c = true)
    (hne : gap ≠ []) (hmeet : tagsMeet w v = true) (t : Text) : ∃ x, startsBlank x = false ∧
      rewrite betweenTags (gap ++ (v ++ t)) = gap ++ x ∧
      rewrite betweenTags (w ++ (gap ++ (v ++ t))) = w ++ x := by
  obtain ⟨w', c, rfl, hrewrite⟩ := exists_rewrite_word_append hw (gap ++ (v ++ t))
  obtain ⟨d, v, rfl⟩ := List.exists_cons_of_ne_nil hv.ne_nil
  obtain ⟨rfl, rfl⟩ : c = '>' ∧ d = '<' := by simpa [tagsMeet] using hmeet
  have hmatch : betweenTags true (ch '>' :: (gap ++ [ch '<']) ++ (v ++ t)) =
      some ((ch '>' :: (gap ++ [ch '<'])).length, [ch '>', '<']) := by
    simpa using betweenTags_of_gap hgap hne (v ++ t)
  have hbetween := rewrite_append_of_match betweenTags_flagless (List.cons_ne_nil _ _) hmatch
  refine ⟨ch '<' :: rewrite betweenTags (v ++ t), rfl, ?_, ?_⟩
  · rw [rewrite_gap_append hgap, List.cons_append,
      rewrite_cons_of_none betweenTags_flagless (betweenTags_of_ne (by decide) _)]
  · rw [hrewrite]
    simpa using hbetween

theorem words_rewrite (h : Runs t ws) : words (rewrite betweenTags t) = mergeTags ws := by
  induction h with
  | @blank gap hgap =>
      have hsame : rewrite betweenTags (gap ++ []) = gap ++ [] := rewrite_gap_append hgap []
      rw [List.append_nil] at hsame
      rw [hsame, words_of_blank hgap]
      rfl
  | @word gap w t ws hgap hw ht h ih =>
      rw [rewrite_gap_append hgap, words_gap_append hgap]
      have hapart (hmeet : tagsMeet w (lstrip t) = false) :
          words (rewrite betweenTags (w ++ t)) = w :: mergeTags ws := by
        rw [rewrite_word_append_of_not_meet hw hmeet, hw.words_append (startsBlank_rewrite ht), ih]
      cases h with
      | blank hgap' =>
          have hnil : lstrip t = [] := List.dropWhile_eq_nil_iff.mpr hgap'
          rw [hapart (by simp [hnil, tagsMeet])]
          rfl
      | @word gap' v t ws hgap' hv ht' h =>
          have hvisible := hv.not_startsBlank_append t
          cases hmeet : tagsMeet w v with
          | false =>
              rw [hapart, mergeTags_of_not_meet hv.ne_nil hmeet]
              rw [lstrip_gap_append hgap' hvisible, tagsMeet_append_right hv.ne_nil, hmeet]
          | true =>
              -- without a blank between them the two would be one word
              have hne : gap' ≠ [] := by
                rintro rfl
                exact absurd (hvisible.symm.trans ht) (by decide)
              obtain ⟨x, hx, hrest, hrewrite⟩ := exists_rewrite_of_meet hw hv hgap' hne hmeet t
              obtain ⟨u, us, hmerged⟩ := exists_mergeTags_cons v ws
              have hruns : Runs x ((v ++ u) :: us) := by
                rw [← hmerged, ← ih, hrest, words_gap_append hgap']
                exact runs_words x
              rw [hrewrite, (hruns.close_append hw hx).words_eq,
                mergeTags_of_meet hv.ne_nil hmeet hmerged]

end Rewrite

section Compact

def Snug (t : Text) : Prop := ∀ a c b, t = a ++ c :: b → isBlank c = true → c = ' ' ∧
  ∃ x y, a.getLast? = some x ∧ b.head? = some y ∧ isBlank x = false ∧ isBlank y = false ∧
    ¬ (x = '>' ∧ y = '<')

theorem not_blank_of_isWord {a b w : Text} {c : CodePoint} (hw : IsWord w) (h : w = a ++ c :: b) :
    isBlank c = false :=
  hw.visible c (by simp [h])

theorem exists_neighbours {v t : Text} (hv : IsWord v) (hstart : startsBlank t = false)
    (hmeet : tagsMeet v t = false) : ∃ x y, v.getLast? = some x ∧ t.head? = some y ∧
      isBlank x = false ∧ isBlank y = false ∧ ¬ (x = '>' ∧ y = '<') := by
  have hlast := List.getLast?_eq_some_getLast hv.ne_nil
  cases t with
  | nil => simp [startsBlank] at hstart
  | cons y t =>
      refine ⟨v.getLast hv.ne_nil, y, hlast, rfl, hv.visible _ (List.getLast_mem _), hstart, ?_⟩
      rintro ⟨hx, rfl⟩
      simp [tagsMeet, hlast, hx] at hmeet

theorem Snug.space_append {v t : Text} (hv : IsWord v) (ht : Snug t) (hstart : startsBlank t = false)
    (hmeet : tagsMeet v t = false) : Snug (v ++ ch ' ' :: t) := by
  have hspace := exists_neighbours hv hstart hmeet
  intro a c b hsplit hc
  rcases List.append_eq_append_iff.mp hsplit with ⟨a', rfl, hrest⟩ | ⟨b', hword, hrest⟩
  · cases a' with
    | nil =>
        obtain ⟨rfl, rfl⟩ := List.cons.inj hrest
        exact ⟨rfl, by simpa using hspace⟩
    | cons d a' =>
        obtain ⟨rfl, hinner⟩ := List.cons.inj hrest
        obtain ⟨hc, x, y, hx, hy, hvisible⟩ := ht a' c b hinner hc
        have hlast : (v ++ ch ' ' :: a').getLast? = some x := by
          simp [List.getLast?_cons, hx]
        exact ⟨hc, x, y, hlast, hy, hvisible⟩
  · -- a blank inside the word, unless it is the space itself
    cases b' with
    | nil =>
        obtain ⟨rfl, rfl⟩ := List.cons.inj hrest
        rw [List.append_nil] at hword
        exact ⟨rfl, hword ▸ hspace⟩
    | cons d b' =>
        obtain ⟨rfl, -⟩ := List.cons.inj hrest
        exact absurd (hc.symm.trans (not_blank_of_isWord hv hword)) (by decide)

theorem snug_unwords {ws : List Text} (h : ∀ w ∈ ws, IsWord w) (hapart : Apart ws) : Snug (unwords ws) := by
  induction hapart with
  | nil => simp [Snug, unwords]
  | singleton w =>
      rw [unwords_singleton]
      intro a c b hsplit hc
      have hvisible := not_blank_of_isWord (h w (List.mem_cons_self ..)) hsplit
      exact absurd (hc.symm.trans hvisible) (by decide)
  | @cons_cons v w ws hmeet _ ih =>
      obtain ⟨hv, hws⟩ := List.forall_mem_cons.mp h
      have hw := hws w (List.mem_cons_self ..)
      have hhead := head?_unwords_cons hw.ne_nil ws
      rw [unwords_cons_of_ne_nil v (List.cons_ne_nil _ _)]
      refine (ih hws).space_append hv ?_ ?_
      · have hstart := hw.not_startsBlank_append []
        rwa [List.append_nil, startsBlank, ← hhead] at hstart
      · rwa [tagsMeet, hhead]

theorem compactMarkup_joins_words (t : Text) :
    (∀ ws, Runs t ws ↔ words t = ws) ∧ compactMarkup t = joinTags (words t) ∧
    compactMarkup (compactMarkup t) = compactMarkup t ∧ ink (compactMarkup t) = ink t ∧
    Snug (compactMarkup t) := by
  have hruns := runs_words t
  have hwords := hruns.isWord
  have hmerged : compactMarkup t = unwords (mergeTags (words t)) := by
    rw [compactMarkup, joinWords, words_rewrite hruns]
  have hmergedRuns : Runs (compactMarkup t) (mergeTags (words t)) := by
    rw [hmerged]
    exact runs_unwords (isWord_mergeTags hwords)
  refine ⟨fun ws => runs_iff, ?_, ?_, ?_, ?_⟩
  · rw [hmerged, unwords_mergeTags hwords]
  · have hagain : compactMarkup (compactMarkup t) = unwords (mergeTags (mergeTags (words t))) := by
      rw [compactMarkup, joinWords, words_rewrite hmergedRuns]
    rw [hagain, mergeTags_of_apart (isWord_mergeTags hwords) (apart_mergeTags hwords), hmerged]
  · rw [ink, ink, hmergedRuns.filter_visible, hruns.filter_visible, flatten_mergeTags]
  · rw [hmerged]
    exact snug_unwords (isWord_mergeTags hwords) (apart_mergeTags hwords)

example : compactMarkup "\n<a >\t<b>\u00a0\u00a0x > < y</b>  ".toText = "<a ><b> x >< y</b>".toText := by cbv

end Compact

end CodeCompaction.Minify
