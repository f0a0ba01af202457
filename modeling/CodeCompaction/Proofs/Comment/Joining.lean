import CodeCompaction.Proofs.Comment.LineMarks
import CodeCompaction.Proofs.Comment.Opacity
import CodeCompaction.Proofs.Literal.Boundary

namespace CodeCompaction.Comment

open CodeCompaction.Text CodeCompaction.Literal

structure LineOnly (g : Grammar) : Prop where
  protects : g.protects = true
  line : g.line?.isSome = true
  block : g.block? = none
  doc : g.doc = false

-- the extensions of such grammars
example : (grammars.filter fun p => p.2.protects && p.2.line?.isSome && p.2.block?.isNone && !p.2.doc).map
    Prod.fst = ["pyx", "sh", "bash", "zsh", "fish", "r", "yaml", "yml", "toml", "conf", "pl", "pm",
      "sass"].map String.toText := by decide +kernel

section Seam

variable {p : Pattern} {a u : Text}

structure Local (p : Pattern) : Prop where
  append_newline : ∀ a u, p true (a ++ ch '\n' :: u) = p true a
  le_length : ∀ {t n}, p true t = some n → n ≤ t.length

theorem local_anywhere {openers : List Text} (h : openers.all isVisible = true) :
    Local (LineMark.anywhere openers).pattern := by
  have hline : ToLineEnd (LineMark.anywhere openers).pattern := toLineEnd_pattern
    (fun o ho hm => ne_newline_of_isVisible (List.all_eq_true.mp h o ho) hm rfl)
  refine ⟨hline.append_newline true, fun {t n} hn => ?_⟩
  rw [hline.takes_line hn]
  exact (List.takeWhile_prefix _).length_le

theorem erase_append_newline (hp : Blind p) (hlocal : Local p) (a u : Text) :
    erase p (a ++ ch '\n' :: u) = erase p a ++ ch '\n' :: erase p u := by
  -- a match takes the front of what is left before the line feed, so the induction is on its length
  induction hn : a.length using Nat.strongRecOn generalizing a with
  | ind n ih =>
      cases hmatch : p true a with
      | none =>
          have hwhole := (hlocal.append_newline a u).trans hmatch
          cases a with
          | nil => exact erase_cons_of_none hp.flagless hwhole
          | cons c a =>
              rw [erase_cons_of_none hp.flagless hmatch]
              exact (erase_cons_of_none hp.flagless hwhole).trans
                (congrArg (c :: ·) (ih a.length (by simp [← hn]) a rfl))
      | some k =>
          obtain ⟨x, y, rfl, rfl⟩ : ∃ x y, a = x ++ y ∧ x.length = k :=
            ⟨a.take k, a.drop k, (List.take_append_drop k a).symm,
              List.length_take_of_le (hlocal.le_length hmatch)⟩
          have hne : x ≠ [] := by
            rintro rfl
            exact hp.positive _ hmatch
          have hwhole : p true (x ++ (y ++ ch '\n' :: u)) = some x.length := by
            rw [← List.append_assoc, hlocal.append_newline, hmatch]
          rw [List.append_assoc, erase_append_of_match hp.flagless hne hwhole,
            erase_append_of_match hp.flagless hne hmatch]
          have hlt : y.length < n := by
            have hpos := List.length_pos_iff.mpr hne
            rw [← hn, List.length_append]
            omega
          exact ih y.length hlt y rfl

end Seam

section Join

variable {ext t u v : Text} {g : Grammar} {s : Shielded}

theorem eraseLines_append_newline (hg : isVisibleGrammar g = true) (a u : Text) :
    eraseLines g (a ++ ch '\n' :: u) = eraseLines g a ++ ch '\n' :: eraseLines g u := by
  simp only [isVisibleGrammar, Bool.and_eq_true] at hg
  unfold eraseLines
  cases hm : g.line? with
  | none => rfl
  | some m =>
      rw [hm] at hg
      cases m with
      | anywhere openers =>
          have hvisible : openers.all isVisible = true := hg.1
          exact erase_append_newline (blind_anywhere hvisible) (local_anywhere hvisible) a u
      | lineStart openers => exact absurd hg.1 (by simp [isVisibleLine])

def literalAt (triple : Bool) (t : Text) (i : Nat) : Text := ((literals (split triple t))[i]?).getD []

theorem literal_eq_literalAt {triple : Bool} (h : Shields triple t s) : s.literal = literalAt triple t := by
  funext i
  rw [Shielded.literal, h.spans_eq, List.getElem?_toArray, literalAt]

theorem exists_shield?_of_subset {triple : Bool} (h : shield? triple t = some s) (hu : u ⊆ t) :
    ∃ s', shield? triple u = some s' :=
  exists_shield?_of_imp h (fun ⟨c, hc, hq⟩ => ⟨c, hu hc, hq⟩) (fun _ _ hc => hu hc)

theorem remove_eq_tidied_fill (hg : grammarOf? ext = some g) (ho : LineOnly g) (hsize : withinSize t = true)
    (hs : shield? g.triple t = some s) {σ : Row} (hsub : σ.Sublist (slots g.triple t))
    (herase : ∀ e, Hides e → eraseLines g (fill e (slots g.triple t)) = fill e σ) :
    remove ext t = tidied (fill (literalAt g.triple t) σ) := by
  have hshields := shields_of_shield? hs
  have hdelete : delete g (some s) s.text = fill (placeholder s.mark) σ := by
    rw [delete_of_not_doc ho.doc, hshields.text_eq]
    simp only [eraseBlocks, ho.block]
    exact herase _ (hides_placeholder hshields.sentinel_mem id)
  rw [remove_of_shield? hg ho.protects hsize hs, hdelete, hshields.restore_fill,
    literal_eq_literalAt hshields]
  · exact fun hfree hm => hfree (mem_of_char_mem_slots (hsub.subset hm))
  · exact fun i hi => hsub.subset hi

theorem fill_literalAt_append {triple : Bool} {ps : List Piece} (hps : PartsAt triple u v ps) {σ τ : Row}
    (hσ : σ.Sublist (slots triple u)) :
    fill (literalAt triple (u ++ ch '\n' :: v))
        (σ ++ .char '\n' :: τ.map (Slot.renumber ((literals (split triple u)).length + ·))) =
      fill (literalAt triple u) σ ++ ch '\n' :: fill (literalAt triple v) τ := by
  have hlit : literals (split triple (u ++ ch '\n' :: v)) =
      literals (split triple u) ++ literals (split triple v) := by
    rw [hps.split_eq, hps.split_front_eq, literals, List.filterMap_append]
    rfl
  rw [fill_append, fill_char, fill_renumber]
  congr 1
  · refine fill_congr (fun i hi => ?_)
    have hlt := mem_holes.mpr (hσ.subset hi)
    rw [slots, holes_number, List.mem_range'_1, Nat.zero_add] at hlt
    rw [literalAt, literalAt, hlit, List.getElem?_append_left hlt.2]
  · refine congrArg (ch '\n' :: ·) (fill_congr (fun j _ => ?_))
    rw [Function.comp_apply, literalAt, literalAt, hlit, List.getElem?_append_right (Nat.le_add_right ..),
      Nat.add_sub_cancel_left]

theorem remove_append_newline (hg : grammarOf? ext = some g) (ho : LineOnly g)
    (hu : withinSize u = true) (hv : withinSize v = true) (huv : withinSize (u ++ ch '\n' :: v) = true)
    (hs : shield? g.triple (u ++ ch '\n' :: v) = some s) {ps : List Piece} (hps : PartsAt g.triple u v ps) :
    remove ext (u ++ ch '\n' :: v) = tidy (remove ext u ++ ch '\n' :: remove ext v) := by
  have hvisible := isVisibleGrammar_of_grammarOf? hg ho.protects
  obtain ⟨σ, hσ, hfirst⟩ := exists_eraseLines_fill hvisible (slots g.triple u)
  obtain ⟨τ, hτ, hsecond⟩ := exists_eraseLines_fill hvisible (slots g.triple v)
  obtain ⟨su, hsu⟩ := exists_shield?_of_subset (u := u) hs (fun c hc => by simp [hc])
  obtain ⟨sv, hsv⟩ := exists_shield?_of_subset (u := v) hs (fun c hc => by simp [hc])
  have hslots := hps.slots_eq
  rw [← hps.split_front_eq, ← slots] at hslots
  have hboth : ∀ e, Hides e → eraseLines g (fill e (slots g.triple (u ++ ch '\n' :: v))) =
      fill e (σ ++ .char '\n' :: τ.map (Slot.renumber ((literals (split g.triple u)).length + ·))) := by
    intro e he
    rw [hslots, fill_append, fill_char, fill_renumber, eraseLines_append_newline hvisible, hfirst e he,
      hsecond (e ∘ _) (fun i => he _), fill_append, fill_char, fill_renumber]
  have hsub : (σ ++ .char '\n' :: τ.map (Slot.renumber ((literals (split g.triple u)).length + ·))).Sublist
      (slots g.triple (u ++ ch '\n' :: v)) := by
    rw [hslots]
    exact hσ.sublist.append ((hτ.sublist.map _).cons_cons _)
  rw [remove_eq_tidied_fill hg ho huv hs hsub hboth, fill_literalAt_append hps hσ.sublist,
    remove_eq_tidied_fill hg ho hu hsu hσ.sublist hfirst, remove_eq_tidied_fill hg ho hv hsv hτ.sublist hsecond,
    tidy_eq_tidied, tidied_append_newline]

theorem remove_append_newline_after_apostrophe :
    remove "sh".toText ("a  # it's\n".toText ++ ch '\n' :: "\n# c\nb='#' # d".toText) =
      tidy (remove "sh".toText "a  # it's\n".toText ++ ch '\n' :: remove "sh".toText "\n# c\nb='#' # d".toText) := by
  have hshield : shield? false ("a  # it's\n".toText ++ ch '\n' :: "\n# c\nb='#' # d".toText) = some
      { text := "a  # it\x00STR0END\x00\n\n\n# c\nb=\x00STR1END\x00 # d".toText
        spans := #["'s".toText, "'#'".toText]
        sentinel := '\x00' } := by cbv
  have hparts : PartsAt false "a  # it's\n".toText "\n# c\nb='#' # d".toText
      ("a  # it".toText.map .plain ++ [.literal "'s".toText, .plain '\n']) :=
    ⟨rfl, split false "\n# c\nb='#' # d".toText, by cbv⟩
  exact remove_append_newline (g := hashOnly) (by decide) ⟨rfl, rfl, rfl, rfl⟩ (by decide) (by decide)
    (by decide) hshield hparts

end Join

end CodeCompaction.Comment
