import CodeCompaction.Proofs.Literal.Ends

namespace CodeCompaction.Text

inductive Thinned : Text → Text → Prop where
  | nil : Thinned [] []
  | keep (c : CodePoint) {a b : Text} : Thinned a b → Thinned (c :: a) (c :: b)
  | drop {c : CodePoint} {a b : Text} (layout : isInlineBlank c = true ∨ c = '\n') :
      Thinned a b → Thinned a (c :: b)

theorem Thinned.sublist {a b : Text} (h : Thinned a b) : a.Sublist b := by
  induction h with
  | nil => exact .slnil
  | keep c _ ih => exact ih.cons_cons c
  | drop _ _ ih => exact ih.cons _

theorem Thinned.tail {a b : Text} (h : Thinned (ch '\n' :: a) b) : Thinned a b := by
  induction b with
  | nil => cases h
  | cons c b ih =>
      cases h with
      | keep _ h => exact .drop (.inr rfl) h
      | drop layout h => exact .drop layout (ih h)

theorem tidyStep_eq_or (c : CodePoint) (t : Text) :
    (tidyStep c t = t ∧ (isInlineBlank c = true ∨ c = '\n')) ∨ tidyStep c t = c :: t := by
  rw [tidyStep]
  split
  · rename_i h
    simp only [Bool.or_eq_true, Bool.and_eq_true, beq_iff_eq] at h
    exact .inl ⟨rfl, h.imp And.left And.left⟩
  · exact .inr rfl

theorem countP_isFirm_tidied (t : Text) : (tidied t).countP isFirm = t.countP isFirm := by
  induction t with
  | nil => rfl
  | cons c t ih =>
      rw [tidied_cons, List.countP_cons, ← ih]
      rcases tidyStep_eq_or c (tidied t) with ⟨heq, hlayout⟩ | heq
      · have hc : isFirm c = false := by
          rw [Bool.eq_false_iff, ne_eq, isFirm_iff]
          rintro ⟨hb, hn⟩
          rcases hlayout with h | h
          · simp [h] at hb
          · exact hn h
        rw [heq, hc]
        rfl
      · rw [heq, List.countP_cons]

theorem length_tidied_le (t : Text) : (tidied t).length ≤ t.length := by
  induction t with
  | nil => exact Nat.le_refl 0
  | cons c t ih =>
      rw [tidied_cons]
      rcases tidyStep_eq_or c (tidied t) with ⟨heq, -⟩ | heq <;>
        (rw [heq]; simp only [List.length_cons]; omega)

theorem eq_nil_of_endsFirm {a u : Text} (h : endsFirm (a ++ u) = true) (hu : u.countP isFirm = 0) :
    u = [] := by
  rcases List.eq_nil_or_concat u with rfl | ⟨u', d, rfl⟩
  · rfl
  · rw [List.concat_eq_append, ← List.append_assoc, endsFirm_append_singleton] at h
    simp [h] at hu

theorem exists_foldr_tidyStep_of_jointed {x : Text} (h : Jointed x) :
    ∃ b w, x = b ++ w ∧ w.all isInlineBlank = true ∧ ∀ r, atLineEnd r = true →
      ∃ r', x.foldr tidyStep r = b ++ r' ∧ atLineEnd r' = true ∧ (r' = r ∨ r = ch '\n' :: r') := by
  induction x using List.reverseRecOn with
  | nil => exact ⟨[], [], rfl, rfl, fun r hr => ⟨r, rfl, hr, .inl rfl⟩⟩
  | append_singleton y c ih =>
      obtain ⟨hy, -, hlink⟩ := List.isChain_append.mp h
      cases hb : isInlineBlank c with
      | true =>
          obtain ⟨b, w, rfl, hw, hfold⟩ := ih hy
          refine ⟨b, w ++ [c], by simp, by simp [hw, hb], fun r hr => ?_⟩
          rw [List.foldr_append, List.foldr_cons, List.foldr_nil, tidyStep_inlineBlank hb hr]
          exact hfold r hr
      | false =>
          refine ⟨y ++ [c], [], by simp, rfl, fun r hr => ?_⟩
          by_cases hdouble : c = '\n' ∧ startsDouble r = true
          · obtain ⟨rfl, hdouble⟩ := hdouble
            have hlast : ∀ a d, y = a ++ [d] → tidyStep d r = d :: r := by
              rintro a d rfl
              obtain rfl : d = '\\' := hlink d (by simp) '\n' (by simp) rfl
              exact tidyStep_of_isFirm (by decide) r
            obtain ⟨r', rfl⟩ : ∃ r', r = ch '\n' :: r' := by
              cases r with
              | nil => simp [startsDouble, startsLine] at hdouble
              | cons d r => exact ⟨r, by simpa [atLineEnd] using hr⟩
            refine ⟨r', ?_, ?_, .inr rfl⟩
            · rw [List.foldr_append, List.foldr_cons, List.foldr_nil, tidyStep_newline_of_double hdouble,
                foldr_tidyStep_of_jointed hy hlast, List.append_assoc]
              rfl
            · rw [startsDouble_newline] at hdouble
              exact atLineEnd_of_startsLine hdouble
          · refine ⟨r, foldr_tidyStep_of_jointed h ?_, hr, .inl rfl⟩
            intro a d had
            obtain ⟨-, rfl⟩ := List.append_inj' had rfl |>.imp id (fun h => (List.cons.inj h).1)
            rw [tidyStep, hb, Bool.false_and, Bool.false_or, if_neg (by simpa using hdouble)]

end CodeCompaction.Text

namespace CodeCompaction.Literal

open CodeCompaction.Text

def Follow.After : Follow → Text → Prop
  | .anything, _ => True
  | .lineEnd, r => atLineEnd r = true
  | .textEnd, r => r = []

section OneLiteral

variable {x r : Text} {f : Follow}

theorem foldr_tidyStep_of_suits (hx : Suits x f) (hr : f.After r) (htidy : tidied x = x) :
    ∃ r', x.foldr tidyStep r = x ++ r' ∧ (r' = r ∨ r = ch '\n' :: r') := by
  cases f with
  | anything => exact ⟨r, by rw [foldr_tidyStep_of_endsFirm hx, htidy], .inl rfl⟩
  | textEnd =>
      obtain rfl := hr
      exact ⟨[], by rw [List.append_nil]; exact htidy, .inl rfl⟩
  | lineEnd =>
      obtain ⟨b, w, hbw, -, hfold⟩ := exists_foldr_tidyStep_of_jointed hx
      obtain ⟨r₀, hnil, -, hr₀⟩ := hfold [] rfl
      have hr₀ : r₀ = [] := hr₀.resolve_right (by simp)
      rw [hr₀, List.append_nil] at hnil
      have hb : b = x := hnil.symm.trans htidy
      obtain ⟨r', hr', -, hshift⟩ := hfold r hr
      exact ⟨r', by rw [hr', hb], hshift⟩

theorem tidied_of_foldr_eq_append (hx : Suits x f) (hr : f.After r) {v : Text}
    (h : x.foldr tidyStep r = x ++ v) : tidied x = x ∧ (v = r ∨ r = ch '\n' :: v) := by
  cases f with
  | anything =>
      rw [foldr_tidyStep_of_endsFirm hx] at h
      -- what tidying took from the end of the literal would hold its last character
      obtain ⟨u, hu⟩ : ∃ u, tidied x ++ u = x := by
        have hpre : tidied x <+: x ++ v := ⟨r, h⟩
        exact List.prefix_of_prefix_length_le hpre (List.prefix_append x v) (length_tidied_le x)
      have hcount : u.countP isFirm = 0 := by
        have := congrArg (List.countP isFirm) hu
        rw [List.countP_append, countP_isFirm_tidied] at this
        omega
      obtain rfl : u = [] := by
        refine eq_nil_of_endsFirm (a := tidied x) ?_ hcount
        rw [hu]
        exact hx
      rw [List.append_nil] at hu
      rw [hu, List.append_cancel_left_eq] at h
      exact ⟨hu, .inl h.symm⟩
  | textEnd =>
      obtain rfl := hr
      have htidied : tidied x = x ++ v := h
      have hlen := length_tidied_le x
      rw [htidied, List.length_append] at hlen
      obtain rfl : v = [] := List.eq_nil_of_length_eq_zero (by omega)
      exact ⟨by rw [htidied, List.append_nil], .inl rfl⟩
  | lineEnd =>
      obtain ⟨b, w, rfl, hw, hfold⟩ := exists_foldr_tidyStep_of_jointed hx
      obtain ⟨r', hr', hend, hshift⟩ := hfold r hr
      have hrest : r' = w ++ v := by
        rwa [hr', List.append_assoc, List.append_cancel_left_eq] at h
      cases w with
      | cons c w =>
          have hblank : isInlineBlank c = true := by simpa using (Bool.and_eq_true_iff.mp hw).1
          obtain rfl : c = '\n' := by simpa [hrest, atLineEnd] using hend
          simp [isInlineBlank_newline] at hblank
      | nil =>
          obtain ⟨r₀, hnil, -, hr₀⟩ := hfold [] rfl
          have hr₀ : r₀ = [] := hr₀.resolve_right (by simp)
          rw [hr₀] at hnil
          rw [List.nil_append] at hrest
          exact ⟨hnil, by rwa [← hrest]⟩

end OneLiteral

theorem weave_modifyHead (c : CodePoint) {hs : List Text} (h : hs ≠ []) (xs : List Text) :
    weave (hs.modifyHead (c :: ·)) xs = c :: weave hs xs := by
  cases hs with
  | nil => exact absurd rfl h
  | cons g gs => cases xs <;> rfl

section ManyLiterals

variable {lit : Nat → Text} {ω : Row}

/-- The holes of a row and their literals: each starts with a quote and fits what follows, and no quote
stands elsewhere. -/
structure Frames (lit : Nat → Text) (ω : Row) : Prop where
  quoteless : ∀ c, Slot.char c ∈ ω → isQuote c = false
  quoted : ∀ i, Slot.hole i ∈ ω → ∃ q x, lit i = q :: x ∧ isQuote q = true
  keeps : Keeps (fun i => Suits (lit i)) ω

theorem Frames.tail {s : Slot} (h : Frames lit (s :: ω)) : Frames lit ω := by
  refine ⟨fun c hc => h.quoteless c (List.mem_cons_of_mem _ hc),
    fun i hi => h.quoted i (List.mem_cons_of_mem _ hi), ?_⟩
  exact Keeps.suffix (σ := [s]) h.keeps

theorem Follow.After.of_holds {f : Follow} (h : f.Holds ω) : f.After (tidied (fill lit ω)) := by
  cases f with
  | anything => trivial
  | textEnd =>
      obtain rfl : ω = [] := h
      rfl
  | lineEnd =>
      rcases h with rfl | h
      · rfl
      · obtain ⟨ω', rfl⟩ := List.head?_eq_some_iff.mp h
        rw [fill_char, tidied_cons]
        exact atLineEnd_of_startsLine (startsLine_tidyStep_newline _)

theorem exists_suits_of_frames {i : Nat} (h : Frames lit (.hole i :: ω)) :
    ∃ f, Suits (lit i) f ∧ f.After (tidied (fill lit ω)) := by
  obtain ⟨⟨f, hf, hholds⟩, -⟩ := h.keeps
  exact ⟨f, hf, .of_holds hholds⟩

theorem tidied_fill_hole (i : Nat) (ω : Row) :
    tidied (fill lit (.hole i :: ω)) = (lit i).foldr tidyStep (tidied (fill lit ω)) := by
  rw [fill_hole, tidied, List.foldr_append, ← tidied]

theorem exists_cons_of_weave_eq {c : CodePoint} {r : Text} {hs xs : List Text} (hne : hs ≠ [])
    (hc : isQuote c = false) (hxs : ∀ x ∈ xs, ∃ q y, x = q :: y ∧ isQuote q = true)
    (h : weave hs xs = c :: r) : ∃ g gs, hs = (c :: g) :: gs ∧ weave (g :: gs) xs = r := by
  cases hs with
  | nil => exact absurd rfl hne
  | cons g gs =>
      cases g with
      | cons d g =>
          cases xs with
          | nil =>
              obtain ⟨rfl, rfl⟩ := List.cons.inj h
              exact ⟨g, gs, rfl, rfl⟩
          | cons x xs =>
              obtain ⟨rfl, rfl⟩ := List.cons.inj h
              exact ⟨g, gs, rfl, rfl⟩
      | nil =>
          cases xs with
          | nil => simp [weave] at h
          | cons x xs =>
              obtain ⟨q, y, rfl, hq⟩ := hxs x (List.mem_cons_self ..)
              obtain ⟨rfl, -⟩ := List.cons.inj h
              simp [hc] at hq

theorem Frames.quoted_literals (h : Frames lit ω) :
    ∀ x ∈ (holes ω).map lit, ∃ q y, x = q :: y ∧ isQuote q = true := by
  intro x hx
  obtain ⟨i, hi, rfl⟩ := List.mem_map.mp hx
  exact h.quoted i (mem_holes.mp hi)

theorem gaps_ne_nil (ω : Row) : gaps ω ≠ [] := by
  have := length_gaps ω
  exact List.ne_nil_of_length_pos (by omega)

theorem thinned_modifyHead {hs gs : List Text} (h : List.Forall₂ Thinned hs gs) (c : CodePoint) :
    List.Forall₂ Thinned (hs.modifyHead (c :: ·)) (gs.modifyHead (c :: ·)) := by
  cases h with
  | nil => exact .nil
  | cons hhead htail => exact .cons (.keep c hhead) htail

theorem thinned_modifyHead_right {hs gs : List Text} (h : List.Forall₂ Thinned hs gs) {c : CodePoint}
    (hc : isInlineBlank c = true ∨ c = '\n') :
    List.Forall₂ Thinned hs (gs.modifyHead (c :: ·)) := by
  cases h with
  | nil => exact .nil
  | cons hhead htail => exact .cons (.drop hc hhead) htail

theorem exists_thinned (h : Frames lit ω) (htidy : ∀ i ∈ holes ω, tidied (lit i) = lit i) :
    ∃ hs, List.Forall₂ Thinned hs (gaps ω) ∧ tidied (fill lit ω) = weave hs ((holes ω).map lit) := by
  induction ω with
  | nil => exact ⟨[[]], .cons .nil .nil, rfl⟩
  | cons s ω ih =>
      cases s with
      | char c =>
          obtain ⟨hs, hthin, heq⟩ := ih h.tail htidy
          have hne : hs ≠ [] := by
            rintro rfl
            exact gaps_ne_nil ω (List.forall₂_nil_left_iff.mp hthin)
          rw [fill_char, tidied_cons, holes_char, gaps]
          rcases tidyStep_eq_or c (tidied (fill lit ω)) with ⟨hstep, hlayout⟩ | hstep
          · exact ⟨hs, thinned_modifyHead_right hthin hlayout, hstep.trans heq⟩
          · refine ⟨hs.modifyHead (c :: ·), thinned_modifyHead hthin c, ?_⟩
            rw [hstep, heq, weave_modifyHead c hne]
      | hole i =>
          obtain ⟨hs, hthin, heq⟩ := ih h.tail (fun j hj => htidy j (List.mem_cons_of_mem _ hj))
          have hne : hs ≠ [] := by
            rintro rfl
            exact gaps_ne_nil ω (List.forall₂_nil_left_iff.mp hthin)
          obtain ⟨f, hf, hafter⟩ := exists_suits_of_frames h
          obtain ⟨r, hfold, hr⟩ :=
            foldr_tidyStep_of_suits hf hafter (htidy i (List.mem_cons_self ..))
          rw [tidied_fill_hole, hfold, holes_hole, gaps]
          rcases hr with rfl | hr
          · exact ⟨[] :: hs, .cons .nil hthin, by rw [heq]; rfl⟩
          · -- the literal ends in a line feed and took the place of the one behind it
            rw [heq] at hr
            obtain ⟨g, gs, rfl, hweave⟩ :=
              exists_cons_of_weave_eq hne (by decide) h.tail.quoted_literals hr
            obtain ⟨b, bs, hhead, htail, hgaps⟩ := List.forall₂_cons_left_iff.mp hthin
            refine ⟨[] :: g :: gs, ?_, by rw [← hweave]; rfl⟩
            rw [hgaps]
            exact .cons .nil (.cons hhead.tail htail)

theorem tidied_literal_of_weave (h : Frames lit ω) {hs : List Text}
    (hlen : hs.length = (holes ω).length + 1) (hquote : ∀ g ∈ hs, ∀ c ∈ g, isQuote c = false)
    (heq : tidied (fill lit ω) = weave hs ((holes ω).map lit)) :
    ∀ i ∈ holes ω, tidied (lit i) = lit i := by
  induction ω generalizing hs with
  | nil => simp
  | cons s ω ih =>
      have hne : hs ≠ [] := List.ne_nil_of_length_pos (by omega)
      cases s with
      | char c =>
          rw [fill_char, tidied_cons, holes_char] at heq
          rcases tidyStep_eq_or c (tidied (fill lit ω)) with ⟨hstep, -⟩ | hstep
          · exact ih h.tail hlen hquote (hstep.symm.trans heq)
          · rw [hstep] at heq
            obtain ⟨g, gs, rfl, hweave⟩ := exists_cons_of_weave_eq hne
              (h.quoteless c (List.mem_cons_self ..)) h.tail.quoted_literals heq.symm
            have hquote' : ∀ g' ∈ g :: gs, ∀ d ∈ g', isQuote d = false := by
              intro g' hg' d hd
              rcases List.mem_cons.mp hg' with rfl | hg'
              · exact hquote _ (List.mem_cons_self ..) d (List.mem_cons_of_mem _ hd)
              · exact hquote g' (List.mem_cons_of_mem _ hg') d hd
            have hlen' : (g :: gs).length = (holes ω).length + 1 := hlen
            exact ih h.tail hlen' hquote' hweave.symm
      | hole i =>
          obtain ⟨g, hs, rfl⟩ := List.exists_cons_of_ne_nil hne
          obtain ⟨q, x, hx, hq⟩ := h.quoted i (List.mem_cons_self ..)
          rw [tidied_fill_hole, holes_hole, List.map_cons, weave, List.append_assoc] at heq
          have hstart : ∃ y, (lit i).foldr tidyStep (tidied (fill lit ω)) = q :: y :=
            ⟨_, by rw [hx, List.foldr_cons, tidyStep_of_isFirm (isFirm_of_isQuote hq)]⟩
          obtain rfl : g = [] := by
            cases g with
            | nil => rfl
            | cons d g =>
                obtain ⟨y, hy⟩ := hstart
                rw [hy] at heq
                obtain ⟨rfl, -⟩ := List.cons.inj heq
                have := hquote _ (List.mem_cons_self ..) q (List.mem_cons_self ..)
                simp [hq] at this
          rw [List.nil_append] at heq
          have hlen' : hs.length = (holes ω).length + 1 := by simpa using hlen
          have hquote' : ∀ g ∈ hs, ∀ c ∈ g, isQuote c = false :=
            fun g hg => hquote g (List.mem_cons_of_mem _ hg)
          obtain ⟨f, hf, hafter⟩ := exists_suits_of_frames h
          obtain ⟨htidy, hrest⟩ := tidied_of_foldr_eq_append hf hafter heq
          have hω : ∀ j ∈ holes ω, tidied (lit j) = lit j := by
            rcases hrest with hrest | hrest
            · exact ih h.tail hlen' hquote' hrest.symm
            · have hne' : hs ≠ [] := List.ne_nil_of_length_pos (by omega)
              rw [← weave_modifyHead '\n' hne'] at hrest
              refine ih h.tail (by simpa using hlen') ?_ hrest
              obtain ⟨k, ks, rfl⟩ := List.exists_cons_of_ne_nil hne'
              intro g hg c hc
              rcases List.mem_cons.mp hg with rfl | hg
              · rcases List.mem_cons.mp hc with rfl | hc
                · rfl
                · exact hquote' k (List.mem_cons_self ..) c hc
              · exact hquote' g (List.mem_cons_of_mem _ hg) c hc
          intro j hj
          rcases List.mem_cons.mp hj with rfl | hj
          · exact htidy
          · exact hω j hj

end ManyLiterals

end CodeCompaction.Literal
