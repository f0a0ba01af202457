import CodeCompaction.Proofs.Comment.DocRun
import CodeCompaction.Proofs.Comment.Erasure
import CodeCompaction.Proofs.Literal.RoundTrip

namespace CodeCompaction.Comment

open CodeCompaction.Text CodeCompaction.Literal

structure Seats (s : Shielded) (r : Nat → Nat) (d : Nat → Bool) (σ : Row) : Prop where
  sentinel_mem : s.sentinel ∈ sentinels
  absent : s.spans = #[] ∨ Slot.char s.sentinel ∉ σ
  isDoc_eq : ∀ j, Slot.hole j ∈ σ → (s.spans[r j]?).any isDoc = d j

theorem Seats.mono {s : Shielded} {r : Nat → Nat} {d : Nat → Bool} {σ τ : Row} (h : Seats s r d σ)
    (hsub : ∀ x ∈ τ, x ∈ σ) : Seats s r d τ := by
  refine ⟨h.sentinel_mem, h.absent.imp id ?_, ?_⟩
  · intro hc hm
    exact hc (hsub _ hm)
  · intro j hj
    exact h.isDoc_eq j (hsub _ hj)

theorem Seats.hides {s : Shielded} {r : Nat → Nat} {d : Nat → Bool} {σ : Row} (h : Seats s r d σ) :
    Hides (s.seat r) := s.hides_seat h.sentinel_mem r

section Scans

variable {g : Grammar}

theorem exists_codePart_fill (hg : isVisibleGrammar g = true) (ρ : Row) :
    ∃ κ : Row, ∀ e, Hides e → codePart g (fill e ρ) = fill e κ := by
  obtain ⟨ρ', -, hρ'⟩ := exists_eraseLines_fill hg ρ
  exact ⟨rstripSlots ρ', fun e he => by rw [codePart_eq, hρ' e he, rstrip_fill he]⟩

theorem exists_codeAfter_fill (hg : isVisibleGrammar g = true) (p : Option Row) (ρ : Row) :
    ∃ φ : Option Row, ∀ e, Hides e →
      codeAfter g (p.map (fill e)) (fill e ρ) = φ.map (fill e) := by
  obtain ⟨κ, hκ⟩ := exists_codePart_fill hg ρ
  have hblank (e : Nat → Text) (he : Hides e) : isAllBlank (fill e κ) = κ.all (Slot.test isBlank false) :=
    all_fill not_isBlank_of_hidden he κ
  cases h : κ.all (Slot.test isBlank false) with
  | true => exact ⟨p, fun e he => by rw [codeAfter, hκ e he, hblank e he, h, if_pos rfl]⟩
  | false =>
      exact ⟨some κ, fun e he => by
        rw [codeAfter, hκ e he, hblank e he, h, if_neg Bool.false_ne_true, Option.map_some]⟩

theorem exists_firstCode?_fill (hg : isVisibleGrammar g = true) (rs : List Row) :
    ∃ φ : Option Row, ∀ e, Hides e → firstCode? g (rs.map (fill e)) = φ.map (fill e) := by
  induction rs with
  | nil => exact ⟨none, fun _ _ => rfl⟩
  | cons ρ rs ih =>
      obtain ⟨φ, hφ⟩ := ih
      obtain ⟨φ', hφ'⟩ := exists_codeAfter_fill hg φ ρ
      exact ⟨φ', fun e he => by rw [List.map_cons, firstCode?_cons, hφ e he, hφ' e he]⟩

theorem bracketDepth_cons (depth : Nat) (c : CodePoint) (t : Text) :
    bracketDepth depth (c :: t) = bracketDepth (bracketDepth depth [c]) t := rfl

theorem bracketDepth_append (depth : Nat) (a t : Text) :
    bracketDepth depth (a ++ t) = bracketDepth (bracketDepth depth a) t := by
  rw [bracketDepth, List.foldl_append]
  rfl

theorem bracketDepth_of_no_bracket {w : Text}
    (hw : ∀ c ∈ w, isOpenBracket c = false ∧ isCloseBracket c = false) (depth : Nat) :
    bracketDepth depth w = depth := by
  induction w with
  | nil => rfl
  | cons c w ih =>
      obtain ⟨hopen, hclose⟩ := hw c (List.mem_cons_self ..)
      have hstep : bracketDepth depth [c] = depth := by simp [bracketDepth, hopen, hclose]
      rw [bracketDepth_cons, hstep, ih (fun d hd => hw d (List.mem_cons_of_mem _ hd))]

theorem bracketDepth_hidden {w : Text} (hw : ∀ c ∈ w, c ∈ placeholderAlphabet) (depth : Nat) :
    bracketDepth depth w = depth := by
  have hopen : ∀ c ∈ placeholderAlphabet, isOpenBracket c = false := eq_of_hidden (by decide)
  have hclose : ∀ c ∈ placeholderAlphabet, isCloseBracket c = false := eq_of_hidden (by decide)
  exact bracketDepth_of_no_bracket (fun c hc => ⟨hopen c (hw c hc), hclose c (hw c hc)⟩) depth

theorem exists_bracketDepth_fill (depth : Nat) (σ : Row) :
    ∃ n, ∀ e, Hides e → bracketDepth depth (fill e σ) = n := by
  induction σ generalizing depth with
  | nil => exact ⟨depth, fun _ _ => rfl⟩
  | cons s σ ih =>
      cases s with
      | char c =>
          obtain ⟨n, hn⟩ := ih (bracketDepth depth [c])
          exact ⟨n, fun e he => by rw [fill_char, bracketDepth_cons, hn e he]⟩
      | hole i =>
          obtain ⟨n, hn⟩ := ih depth
          exact ⟨n, fun e he => by
            rw [fill_hole, bracketDepth_append, bracketDepth_hidden (he i).2, hn e he]⟩

theorem exists_insideExpression_fill (p f : Option Row) :
    ∃ b, ∀ e, Hides e → insideExpression (p.map (fill e)) (f.map (fill e)) = b := by
  have hafter : ∀ c ∈ placeholderAlphabet, continuesAfter c = false := eq_of_hidden (by decide)
  have hbefore : ∀ c ∈ placeholderAlphabet, continuesBefore c = false := eq_of_hidden (by decide)
  refine ⟨(p.bind List.getLast?).any (Slot.test continuesAfter false) ||
    (f.bind (fun ρ => (ρ.dropWhile (Slot.test isBlank false)).head?)).any
      (Slot.test continuesBefore false), fun e he => ?_⟩
  have hlast : ((p.map (fill e)).bind List.getLast?).any continuesAfter =
      (p.bind List.getLast?).any (Slot.test continuesAfter false) := by
    cases p with
    | none => rfl
    | some ρ => exact getLast?_any_fill hafter he ρ
  have hhead : ((f.map (fill e)).bind (fun t => (lstrip t).head?)).any continuesBefore =
      (f.bind (fun ρ => (ρ.dropWhile (Slot.test isBlank false)).head?)).any
        (Slot.test continuesBefore false) := by
    cases f with
    | none => rfl
    | some ρ =>
        rw [Option.map_some, Option.bind_some, Option.bind_some, lstrip_fill he]
        exact head?_any_fill hbefore he _
  rw [insideExpression, hlast, hhead]

theorem indentation_fill {e : Nat → Text} (he : Hides e) (σ : Row) :
    indentation (fill e σ) = fill e (σ.takeWhile (Slot.test isInlineBlank false)) :=
  takeWhile_fill (eq_of_hidden (by decide)) he σ

theorem exists_fillsBlock_fill (p f : Option Row) (indent : Text) :
    ∃ b, ∀ e, Hides e → fillsBlock (p.map (fill e)) (f.map (fill e)) indent = b := by
  have hcolon : ∀ c ∈ placeholderAlphabet, (c == ':') = false := eq_of_hidden (by decide)
  have hlast (e : Nat → Text) (he : Hides e) : (((p.map (fill e)).bind List.getLast?) == some (ch ':')) =
      (p.bind List.getLast?).any (Slot.test (· == ':') false) := by
    cases p with
    | none => rfl
    | some ρ =>
        rw [Option.bind_some, ← getLast?_any_fill hcolon he ρ, Option.map_some, Option.bind_some]
        cases (fill e ρ).getLast? <;> rfl
  cases f with
  | none =>
      refine ⟨(p.bind List.getLast?).any (Slot.test (· == ':') false), fun e he => ?_⟩
      simp only [fillsBlock, hlast e he, Option.map_none, Bool.and_true]
  | some ρ =>
      obtain ⟨t, ht, -⟩ := exists_text_takeWhile isInlineBlank ρ
      refine ⟨(p.bind List.getLast?).any (Slot.test (· == ':') false) && t.length < indent.length,
        fun e he => ?_⟩
      simp only [fillsBlock, hlast e he, Option.map_some, indentation_fill he, ht, fill_ofText]

end Scans

def HoleLine (ρ : Row) (indent : Text) (j : Nat) : Prop :=
  ∃ τ : Text, ρ = ofText indent ++ .hole j :: ofText τ ∧
    indent.all isInlineBlank = true ∧ τ.all isInlineBlank = true

section PlaceholderLine

variable {s : Shielded} {r : Nat → Nat} {ρ : Row}

theorem placeholderLine?_of_holeLine (hs : s.sentinel ∈ sentinels) {indent : Text} {j : Nat}
    (h : HoleLine ρ indent j) :
    placeholderLine? s.mark (fill (s.seat r) ρ) = some (indent, r j) := by
  obtain ⟨τ, rfl, hindent, hτ⟩ := h
  have hpos : ∀ x ∈ ofText indent, Slot.test isInlineBlank false x = true := by
    intro x hx
    obtain ⟨c, hc, rfl⟩ := List.mem_map.mp hx
    exact List.all_eq_true.mp hindent c hc
  have htake : (ofText indent ++ Slot.hole j :: ofText τ).takeWhile (Slot.test isInlineBlank false) =
      ofText indent := by
    rw [List.takeWhile_append_of_pos hpos, List.takeWhile_cons_of_neg (by simp), List.append_nil]
  have hfront := indentation_fill (s.hides_seat hs r) (ofText indent ++ .hole j :: ofText τ)
  rw [htake, fill_ofText] at hfront
  have hline : fill (s.seat r) (ofText indent ++ .hole j :: ofText τ) =
      indent ++ (placeholder s.mark (r j) ++ τ) := by
    rw [fill_append, fill_ofText, fill_hole, fill_ofText]
    rfl
  rw [placeholderLine?_eq hfront hline, readPlaceholder?_placeholder, Option.bind_some]
  simp only [List.drop_left, hτ, if_true]

theorem placeholderLine?_of_not_holeLine (hs : s.sentinel ∈ sentinels)
    (hc : Slot.char s.sentinel ∉ ρ) (h : ¬ ∃ indent j, HoleLine ρ indent j) :
    placeholderLine? s.mark (fill (s.seat r) ρ) = none := by
  obtain ⟨indent, htake, hall⟩ := exists_text_takeWhile isInlineBlank ρ
  have hsplit := List.takeWhile_append_dropWhile (p := Slot.test isInlineBlank false) (l := ρ)
  rw [htake] at hsplit
  have hfront := indentation_fill (s.hides_seat hs r) ρ
  rw [htake, fill_ofText] at hfront
  rw [placeholderLine?_eq hfront (by rw [← hsplit, fill_append, fill_ofText])]
  cases hdrop : ρ.dropWhile (Slot.test isInlineBlank false) with
  | nil => rfl
  | cons x τ =>
      rw [hdrop] at hsplit
      cases x with
      | char c =>
          have hne : c ≠ s.sentinel := by
            rintro rfl
            exact hc (hsplit ▸ List.mem_append_right _ (List.mem_cons_self ..))
          rw [fill_char, Shielded.mark, readPlaceholder?_of_ne hne, Option.bind_none]
      | hole j =>
          rw [fill_hole, Shielded.seat, readPlaceholder?_placeholder, Option.bind_some]
          simp only [List.drop_left]
          rw [all_fill (v := false) (eq_of_hidden (by decide)) (s.hides_seat hs r), if_neg]
          intro hτ
          obtain ⟨w, rfl, hw⟩ := exists_ofText_of_all hτ
          exact h ⟨indent, j, w, hsplit.symm, List.all_eq_true.mpr hall, hw⟩

end PlaceholderLine

def Leaves (ρ : Row) : DocFate → Prop
  | .replaced indent => ∃ τ, ρ = ofText indent ++ τ
  | _ => True

theorem exists_docVerdict_fill (d : Nat → Bool) (depth : Nat) (ρ : Row) (p f : Option Row) :
    ∃ v, Leaves ρ v ∧ ∀ s r, Seats s r d ρ → docVerdict s depth (fill (s.seat r) ρ)
      (p.map (fill (s.seat r))) (f.map (fill (s.seat r))) = v := by
  by_cases hdepth : depth = 0
  · by_cases hline : ∃ indent j, HoleLine ρ indent j
    · obtain ⟨indent, j, hhole⟩ := hline
      obtain ⟨inside, hinside⟩ := exists_insideExpression_fill p f
      obtain ⟨fills, hfills⟩ := exists_fillsBlock_fill p f indent
      have hmem : Slot.hole j ∈ ρ := by
        obtain ⟨τ, rfl, -⟩ := hhole
        simp
      refine ⟨if !d j then .kept else if inside then .kept else if fills then .replaced indent
        else .dropped, ?_, fun s r hs => ?_⟩
      · obtain ⟨τ, rfl, -⟩ := hhole
        split
        · trivial
        · split
          · trivial
          · split
            · exact ⟨_, rfl⟩
            · trivial
      · simp only [docVerdict, hdepth, bne_self_eq_false, Bool.false_eq_true, if_false,
          placeholderLine?_of_holeLine hs.sentinel_mem hhole, hs.isDoc_eq j hmem, hinside _ hs.hides,
          hfills _ hs.hides]
    · refine ⟨.kept, trivial, fun s r hs => ?_⟩
      rcases hs.absent with hempty | hfree
      · exact docVerdict_of_no_spans hempty ..
      · simp only [docVerdict, placeholderLine?_of_not_holeLine hs.sentinel_mem hfree hline, ite_self]
  · exact ⟨.kept, trivial, fun s r _ => by simp [docVerdict, hdepth]⟩

inductive Culls : List Row → List Row → Prop where
  | nil : Culls [] []
  | keep (ρ : Row) {rs' rs : List Row} : Culls rs' rs → Culls (ρ :: rs') (ρ :: rs)
  | drop (ρ : Row) {rs' rs : List Row} : Culls rs' rs → Culls rs' (ρ :: rs)
  | pass (indent : Text) (τ : Row) {rs' rs : List Row} : Culls rs' rs →
      Culls (ofText (indent ++ "pass".toText) :: rs') ((ofText indent ++ τ) :: rs)

theorem exists_docRun_fill {g : Grammar} (hg : isVisibleGrammar g = true) (d : Nat → Bool)
    (rs : List Row) (p : Option Row) (depth : Nat) : ∃ rs', Culls rs' rs ∧
      ∀ s r, (∀ ρ ∈ rs, Seats s r d ρ) → docRun g s (p.map (fill (s.seat r))) depth
        (rs.map (fill (s.seat r))) = rs'.map (fill (s.seat r)) := by
  induction rs generalizing p depth with
  | nil => exact ⟨[], .nil, fun _ _ _ => rfl⟩
  | cons ρ rs ih =>
      obtain ⟨κ, hκ⟩ := exists_codePart_fill hg ρ
      obtain ⟨n, hn⟩ := exists_bracketDepth_fill depth κ
      obtain ⟨φ, hφ⟩ := exists_firstCode?_fill hg rs
      obtain ⟨v, hleaves, hv⟩ := exists_docVerdict_fill d depth ρ p φ
      have hdepth (e : Nat → Text) (he : Hides e) :
          bracketDepth depth (codePart g (fill e ρ)) = n := by
        rw [hκ e he, hn e he]
      have hverdict (s : Shielded) (r : Nat → Nat) (hs : ∀ ρ' ∈ ρ :: rs, Seats s r d ρ') :
          docVerdict s depth (fill (s.seat r) ρ) (p.map (fill (s.seat r)))
            (firstCode? g (rs.map (fill (s.seat r)))) = v := by
        have hρ := hs ρ (List.mem_cons_self ..)
        rw [hφ _ hρ.hides, hv s r hρ]
      have hrest {s : Shielded} {r : Nat → Nat} (hs : ∀ ρ' ∈ ρ :: rs, Seats s r d ρ') :
          ∀ ρ' ∈ rs, Seats s r d ρ' := fun ρ' hmem => hs ρ' (List.mem_cons_of_mem _ hmem)
      have hhides {s : Shielded} {r : Nat → Nat} (hs : ∀ ρ' ∈ ρ :: rs, Seats s r d ρ') :
          Hides (s.seat r) := (hs ρ (List.mem_cons_self ..)).hides
      cases v with
      | kept =>
          obtain ⟨p', hp'⟩ := exists_codeAfter_fill hg p ρ
          obtain ⟨rs', hculls, hrun⟩ := ih p' n
          refine ⟨ρ :: rs', hculls.keep ρ, fun s r hs => ?_⟩
          rw [List.map_cons, docRun_cons_of_emitted (by rw [hverdict s r hs]; rfl),
            hp' _ (hhides hs), hdepth _ (hhides hs), hrun s r (hrest hs), List.map_cons]
      | replaced indent =>
          obtain ⟨τ, rfl⟩ := hleaves
          obtain ⟨p', hp'⟩ := exists_codeAfter_fill hg p (ofText (indent ++ "pass".toText))
          obtain ⟨rs', hculls, hrun⟩ := ih p' n
          refine ⟨ofText (indent ++ "pass".toText) :: rs', hculls.pass indent τ, fun s r hs => ?_⟩
          have hpass := hp' _ (hhides hs)
          rw [fill_ofText] at hpass
          rw [List.map_cons, docRun_cons_of_emitted (by rw [hverdict s r hs]; rfl),
            hpass, hdepth _ (hhides hs), hrun s r (hrest hs), List.map_cons, fill_ofText]
      | dropped =>
          obtain ⟨rs', hculls, hrun⟩ := ih p n
          refine ⟨rs', hculls.drop ρ, fun s r hs => ?_⟩
          rw [List.map_cons, docRun_cons_of_dropped (by rw [hverdict s r hs]; rfl),
            hdepth _ (hhides hs), hrun s r (hrest hs)]

namespace Culls

variable {rs' rs : List Row}

theorem eq_nil (h : Culls rs' []) : rs' = [] := by
  cases h
  rfl

theorem holes_sublist (h : Culls rs' rs) : (rs'.flatMap holes).Sublist (rs.flatMap holes) := by
  induction h with
  | nil => exact .slnil
  | keep ρ _ ih => exact ih.append_left (holes ρ)
  | drop ρ _ ih => exact ih.trans (List.sublist_append_right ..)
  | pass indent τ _ ih =>
      rw [List.flatMap_cons, holes_ofText, List.nil_append]
      exact ih.trans (List.sublist_append_right ..)

theorem char_mem {c : CodePoint} (h : Culls rs' rs) (hc : ∃ ρ ∈ rs', Slot.char c ∈ ρ) :
    (∃ ρ ∈ rs, Slot.char c ∈ ρ) ∨ c ∈ "pass".toText := by
  induction h with
  | nil => exact .inl hc
  | keep ρ _ ih =>
      simp only [List.mem_cons, exists_eq_or_imp] at hc ⊢
      rcases hc with hc | hc
      · exact .inl (.inl hc)
      · exact (ih hc).imp .inr id
  | drop ρ _ ih =>
      simp only [List.mem_cons, exists_eq_or_imp]
      exact (ih hc).imp .inr id
  | pass indent τ _ ih =>
      simp only [List.mem_cons, exists_eq_or_imp, char_mem_ofText, List.mem_append] at hc ⊢
      rcases hc with (hc | hc) | hc
      · exact .inl (.inl (.inl hc))
      · exact .inr hc
      · exact (ih hc).imp .inr id

theorem keeps (h : Culls rs' rs) (fits : Nat → Follow → Prop) (hk : Keeps fits (joinRows rs)) :
    Keeps fits (joinRows rs') := by
  -- the head row keeps its end unless all rows behind it go, and then it ends the text
  have cons_keeps {ρ₀ : Row} {qs' qs : List Row} (hc : Culls qs' qs)
      (ih : Keeps fits (joinRows qs) → Keeps fits (joinRows qs'))
      (hq : Keeps fits (joinRows (ρ₀ :: qs))) : Keeps fits (joinRows (ρ₀ :: qs')) := by
    by_cases hqs : qs = []
    · subst hqs
      obtain rfl := hc.eq_nil
      exact hq
    · rw [joinRows_cons_of_ne_nil _ hqs] at hq
      by_cases hqs' : qs' = []
      · rw [hqs', joinRows_singleton]
        exact keeps_of_append_newline hq
      · rw [joinRows_cons_of_ne_nil _ hqs']
        exact keeps_append_newline hq (ih (Keeps.suffix (σ := ρ₀ ++ [.char '\n']) (by simpa using hq)))
  have tail_keeps {ρ₀ : Row} {qs : List Row} (hq : Keeps fits (joinRows (ρ₀ :: qs))) :
      Keeps fits (joinRows qs) := by
    by_cases hqs : qs = []
    · subst hqs
      trivial
    · rw [joinRows_cons_of_ne_nil _ hqs] at hq
      exact Keeps.suffix (σ := ρ₀ ++ [.char '\n']) (by simpa using hq)
  induction h with
  | nil => exact hk
  | keep ρ hc ih => exact cons_keeps hc ih hk
  | drop ρ hc ih => exact ih (tail_keeps hk)
  | pass indent τ hc ih =>
      rename_i qs' qs
      have hq := ih (tail_keeps hk)
      by_cases hqs' : qs' = []
      · rw [hqs', joinRows_singleton]
        exact keeps_ofText fits _
      · rw [joinRows_cons_of_ne_nil _ hqs']
        exact keeps_ofText_append (σ := .char '\n' :: joinRows qs') _ hq

theorem edits {σ : Row} (h : Culls rs' (rows σ)) : Edits (joinRows rs') σ := by
  refine ⟨?_, ?_, ?_⟩
  · have := h.holes_sublist
    rwa [← holes_joinRows, ← holes_joinRows, joinRows_rows] at this
  · intro c hc
    rcases char_mem_joinRows hc with rfl | hc
    · exact .inr (by simp)
    · rcases h.char_mem hc with ⟨ρ, hρ, hmem⟩ | hmem
      · exact .inl (exists_mem_of_mem_rows hρ hmem)
      · refine .inr ?_
        simp only [String.toText, String.reduceToList, List.map_cons, List.map_nil, List.mem_cons,
          List.not_mem_nil, or_false] at hmem ⊢
        tauto
  · intro fits hk
    exact h.keeps fits (by rwa [joinRows_rows])

end Culls

theorem exists_removeDocs_fill {g : Grammar} (hg : isVisibleGrammar g = true) (d : Nat → Bool)
    (σ : Row) : ∃ σ', Edits σ' σ ∧ ∀ s r, Seats s r d σ →
      removeDocs g (some s) (fill (s.seat r) σ) = fill (s.seat r) σ' := by
  cases hdoc : g.doc with
  | false => exact ⟨σ, (Trims.refl σ).edits, fun s r _ => removeDocs_of_not_doc hdoc _ _⟩
  | true =>
      obtain ⟨rs', hculls, hrun⟩ := exists_docRun_fill hg d (rows σ) none 0
      refine ⟨joinRows rs', hculls.edits, fun s r hs => ?_⟩
      have hrows : ∀ ρ ∈ rows σ, Seats s r d ρ :=
        fun ρ hρ => hs.mono (fun x hx => exists_mem_of_mem_rows hρ hx)
      have := hrun s r hrows
      rw [Option.map_none] at this
      rw [removeDocs_eq_docRun hdoc, lines_fill hs.hides, this, fill_joinRows]

theorem exists_delete_fill {g : Grammar} (hg : isVisibleGrammar g = true) (d : Nat → Bool) (σ : Row) :
    ∃ σ', Edits σ' σ ∧ ∀ s r, Seats s r d σ →
      delete g (some s) (fill (s.seat r) σ) = fill (s.seat r) σ' := by
  obtain ⟨σ₁, h₁, hdocs⟩ := exists_removeDocs_fill hg d σ
  obtain ⟨σ₂, h₂, herase⟩ := exists_eraseComments_fill hg σ₁
  refine ⟨σ₂, h₂.edits.trans h₁, fun s r hs => ?_⟩
  rw [delete, hdocs s r hs, herase _ hs.hides]

theorem sentinel_not_added {c : CodePoint} (h : c ∈ sentinels) : c ∉ "pass\n".toText := by
  have hall : sentinels.all (fun c => !"pass\n".toText.contains c) = true := by decide
  simpa using List.all_eq_true.mp hall c h

section Edited

variable {triple : Bool} {t : Text} {ω : Row}

theorem hole_mem_of_edits (h : Edits ω (slots triple t)) {i : Nat} (hi : Slot.hole i ∈ ω) :
    Slot.hole i ∈ slots triple t :=
  mem_holes.mp (h.holes_sublist.subset (mem_holes.mpr hi))

theorem sentinel_absent_of_edits (h : Edits ω (slots triple t)) {c : CodePoint} (hc : c ∈ sentinels)
    (hfree : c ∉ t) : Slot.char c ∉ ω := by
  intro hm
  rcases h.char_mem c hm with hm | hm
  · exact hfree (mem_of_char_mem_slots hm)
  · exact sentinel_not_added hc hm

end Edited

end CodeCompaction.Comment
