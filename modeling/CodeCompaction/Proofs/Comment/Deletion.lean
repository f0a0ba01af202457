import CodeCompaction.Proofs.Comment.Opacity
import CodeCompaction.Proofs.Comment.Pruning

namespace CodeCompaction.Comment

open CodeCompaction.Text CodeCompaction.Literal

/-- The pieces of a text in a row, with the empty statement in the place of some documentation. -/
inductive Passed : List Piece → Text → Prop where
  | nil : Passed [] []
  | keep (p : Piece) {ps : List Piece} {u : Text} : Passed ps u → Passed (p :: ps) (p.text ++ u)
  | pass {x : Text} {ps : List Piece} {u : Text} (doc : isDoc x = true) : Passed ps u →
      Passed (.literal x :: ps) ("pass".toText ++ u)

theorem Passed.refl (ps : List Piece) : Passed ps (ps.flatMap Piece.text) := by
  induction ps with
  | nil => exact .nil
  | cons p ps ih => exact .keep p ih

theorem Prunes.exists_passed {d : Nat → Bool} {lit : Nat → Text} {σ : Row} {i : Nat} {ps : List Piece}
    (h : Prunes d σ (number i ps))
    (hlit : ∀ j x, (literals ps)[j]? = some x → lit (i + j) = x ∧ (d (i + j) = true → isDoc x = true)) :
    ∃ u, Passed ps u ∧ (fill lit σ).Sublist u := by
  induction ps generalizing i σ with
  | nil =>
      rw [h.eq_nil]
      exact ⟨[], .nil, .slnil⟩
  | cons p ps ih =>
      cases p with
      | plain c =>
          cases h with
          | keep _ h =>
              obtain ⟨u, hu, hsub⟩ := ih h hlit
              exact ⟨c :: u, .keep (.plain c) hu, hsub.cons_cons c⟩
          | drop _ h =>
              obtain ⟨u, hu, hsub⟩ := ih h hlit
              exact ⟨c :: u, .keep (.plain c) hu, hsub.cons c⟩
      | literal x =>
          obtain ⟨hx, hd⟩ := hlit 0 x rfl
          have hrest : ∀ j y, (literals ps)[j]? = some y →
              lit (i + 1 + j) = y ∧ (d (i + 1 + j) = true → isDoc y = true) :=
            forall_literals_tail (P := fun j y => lit j = y ∧ (d j = true → isDoc y = true)) hlit
          rw [Nat.add_zero] at hx hd
          cases h with
          | keep _ h =>
              obtain ⟨u, hu, hsub⟩ := ih h hrest
              refine ⟨x ++ u, .keep (.literal x) hu, ?_⟩
              rw [fill_hole, hx]
              exact hsub.append_left x
          | drop _ h =>
              obtain ⟨u, hu, hsub⟩ := ih h hrest
              exact ⟨x ++ u, .keep (.literal x) hu, hsub.trans (List.sublist_append_right ..)⟩
          | pass doc h =>
              obtain ⟨u, hu, hsub⟩ := ih h hrest
              refine ⟨"pass".toText ++ u, .pass (hd doc) hu, ?_⟩
              rw [fill_append, fill_ofText]
              exact hsub.append_left _

def documented (s : Shielded) (i : Nat) : Bool := (s.spans[i]?).any isDoc

theorem seats_of_shields {triple : Bool} {t : Text} {s : Shielded} (h : Shields triple t s) :
    Seats s id (documented s) (slots triple t) :=
  ⟨h.sentinel_mem, h.absent.imp id (fun hfree hm => hfree (mem_of_char_mem_slots hm)), fun _ _ => rfl⟩

namespace Deletes

variable {g : Grammar} {t : Text} {s : Shielded} {σ₁ σ₂ σ₃ : Row}

theorem sentinel_absent (h : Deletes g s (documented s) (slots g.triple t) σ₁ σ₂ σ₃)
    (hs : s.sentinel ∈ sentinels) (hfree : s.sentinel ∉ t) : Slot.char s.sentinel ∉ σ₃ := by
  intro hm
  rcases h.char_mem hm with hm | hm
  · exact hfree (mem_of_char_mem_slots hm)
  · exact sentinel_not_added hs (List.mem_append_left [ch '\n'] hm)

theorem stripShielded_eq (h : Deletes g s (documented s) (slots g.triple t) σ₁ σ₂ σ₃)
    (hs : Shields g.triple t s) : stripShielded g s = tidied (fill s.literal σ₃) := by
  rw [stripShielded, tidy_eq_tidied, hs.text_eq, h.delete_eq,
    hs.restore_fill (h.sentinel_absent hs.sentinel_mem) (fun i hi => h.hole_mem hi)]

theorem stripShielded_sublist (h : Deletes g s (documented s) (slots g.triple t) σ₁ σ₂ σ₃)
    (hs : Shields g.triple t s) : (stripShielded g s).Sublist (fill s.literal σ₁) := by
  rw [h.stripShielded_eq hs]
  exact (tidied_sublist _).trans ((h.lines.trans h.blocks).flatMap _)

theorem sentinel_not_mem (h : Deletes g s (documented s) (slots g.triple t) σ₁ σ₂ σ₃)
    (hs : Shields g.triple t s) (hfree : s.sentinel ∉ t) : s.sentinel ∉ stripShielded g s := by
  rw [h.stripShielded_eq hs]
  intro hm
  rcases (mem_fill s.literal).mp ((tidied_sublist _).subset hm) with hchar | ⟨i, hi, hmem⟩
  · exact h.sentinel_absent hs.sentinel_mem hfree hchar
  · have ht : s.sentinel ∈ fill s.literal (slots g.triple t) :=
      (mem_fill s.literal).mpr (.inr ⟨i, h.hole_mem hi, hmem⟩)
    rw [hs.fill_literal] at ht
    exact hfree ht

end Deletes

theorem removeDocs_none_sublist (g : Grammar) (t : Text) : (removeDocs g none t).Sublist t := by
  simp only [removeDocs]
  split
  · exact List.Sublist.refl t
  · exact erase_sublist _ t

theorem eraseBlocks_sublist (g : Grammar) (t : Text) : (eraseBlocks g t).Sublist t := by
  unfold eraseBlocks
  split
  · exact erase_sublist _ t
  · exact List.Sublist.refl t

theorem eraseLines_sublist (g : Grammar) (t : Text) : (eraseLines g t).Sublist t := by
  unfold eraseLines
  split
  · exact erase_sublist _ t
  · exact List.Sublist.refl t

theorem stripPlain_sublist (g : Grammar) (t : Text) : (stripPlain g t).Sublist t := by
  rw [stripPlain, tidy_eq_tidied, delete]
  exact (tidied_sublist _).trans ((eraseLines_sublist g _).trans
    ((eraseBlocks_sublist g _).trans (removeDocs_none_sublist g t)))

theorem mem_grammars_of_grammarOf? {ext : Text} {g : Grammar} (h : grammarOf? ext = some g) :
    (extensionKey ext, g) ∈ grammars := by
  rw [grammarOf?, List.lookup_eq_some_iff] at h
  obtain ⟨l₁, l₂, hg, -⟩ := h
  simp [hg]

theorem doc_iff_of_mem_grammars :
    ∀ p ∈ grammars, p.2.doc = true ↔ p.1 = "py".toText ∨ p.1 = "pyw".toText := by
  decide +kernel

theorem triple_of_doc : ∀ p ∈ grammars, p.2.doc = true → p.2.triple = true := by
  decide +kernel

theorem removal_cases (ext t : Text) : removal ext t = .untouched ∨ removal ext t = .collided ∨
    ∃ g, grammarOf? ext = some g ∧ withinSize t = true ∧
      ((g.protects = false ∧ removal ext t = .stripped (stripPlain g t)) ∨
        g.protects = true ∧ ∃ s, shield? g.triple t = some s ∧
          removal ext t = .stripped (stripShielded g s)) := by
  unfold removal
  split
  · exact .inl rfl
  · rename_i hsize
    have hsize : withinSize t = true := by simpa using hsize
    cases hg : grammarOf? ext with
    | none => exact .inl rfl
    | some g =>
        cases hp : g.protects with
        | false => exact .inr (.inr ⟨g, rfl, hsize, .inl ⟨hp, by simp [hp]⟩⟩)
        | true =>
            cases hs : shield? g.triple t with
            | none => exact .inr (.inl (by simp [hp, hs]))
            | some s => exact .inr (.inr ⟨g, rfl, hsize, .inr ⟨hp, s, hs, by simp [hp, hs]⟩⟩)

theorem sentinel_not_mem_of_shield? {triple : Bool} {t : Text} {s : Shielded}
    (hq : t.any isQuote = true) (hs : shield? triple t = some s) : s.sentinel ∉ t := by
  rw [shield?, if_pos hq] at hs
  obtain ⟨c, hc, rfl⟩ := Option.map_eq_some_iff.mp hs
  exact not_mem_of_chooseSentinel? hc

section Removal

variable {ext t : Text} {g : Grammar} {s : Shielded}

theorem remove_eq_stripShielded (hg : grammarOf? ext = some g) (hp : g.protects = true)
    (hsize : withinSize t = true) (hs : shield? g.triple t = some s) :
    remove ext t = stripShielded g s := by
  simp [remove, removal, hsize, hg, hp, hs, Removal.text]

theorem exists_deletes_of_shield? (hg : grammarOf? ext = some g) (hp : g.protects = true)
    (hs : shield? g.triple t = some s) : ∃ σ₁ σ₂ σ₃,
      Deletes g s (documented s) (slots g.triple t) σ₁ σ₂ σ₃ :=
  exists_deletes (isVisibleGrammar_of_grammarOf? hg hp) (seats_of_shields (shields_of_shield? hs))

theorem stripShielded_sublist_of_not_doc (hg : grammarOf? ext = some g) (hp : g.protects = true)
    (hd : g.doc = false) (hs : shield? g.triple t = some s) : (stripShielded g s).Sublist t := by
  have hshields := shields_of_shield? hs
  obtain ⟨σ₁, σ₂, σ₃, hdel⟩ := exists_deletes_of_shield? hg hp hs
  have hsub := hdel.stripShielded_sublist hshields
  rwa [hdel.same hd, hshields.fill_literal] at hsub

theorem exists_passed_of_shield? (hg : grammarOf? ext = some g) (hp : g.protects = true)
    (hs : shield? g.triple t = some s) :
    ∃ u, Passed (split g.triple t) u ∧ (stripShielded g s).Sublist u := by
  have hshields := shields_of_shield? hs
  obtain ⟨σ₁, σ₂, σ₃, hdel⟩ := exists_deletes_of_shield? hg hp hs
  have hlit : ∀ j x, (literals (split g.triple t))[j]? = some x →
      s.literal (0 + j) = x ∧ (documented s (0 + j) = true → isDoc x = true) := by
    intro j x hx
    have hspan : s.spans[0 + j]? = some x := by
      rw [Nat.zero_add, hshields.spans_eq, List.getElem?_toArray, hx]
    refine ⟨by rw [Shielded.literal, hspan, Option.getD_some], fun hd => ?_⟩
    simpa only [documented, hspan, Option.any_some] using hd
  obtain ⟨u, hu, hsub⟩ := hdel.docs.exists_passed hlit
  exact ⟨u, hu, (hdel.stripShielded_sublist hshields).trans hsub⟩

end Removal

theorem remove_only_deletes (ext t : Text) :
    (extensionKey ext ≠ "py".toText → extensionKey ext ≠ "pyw".toText → (remove ext t).Sublist t) ∧
    (extensionKey ext = "py".toText ∨ extensionKey ext = "pyw".toText →
      ∃ u, Passed (split true t) u ∧ (remove ext t).Sublist u) ∧
    ∀ g s, grammarOf? ext = some g → g.protects = true → withinSize t = true →
      t.any isQuote = true → shield? g.triple t = some s → s.sentinel ∉ remove ext t := by
  have hwhole : ∃ u, Passed (split true t) u ∧ t.Sublist u := by
    have hrefl := Passed.refl (split true t)
    rw [flatMap_text_split] at hrefl
    exact ⟨t, hrefl, List.Sublist.refl t⟩
  refine ⟨fun hpy hpyw => ?_, fun hkey => ?_, fun g s hg hp hsize hq hs => ?_⟩
  · rcases removal_cases ext t with h | h | ⟨g, hg, -, ⟨-, h⟩ | ⟨hp, s, hs, h⟩⟩ <;>
      rw [remove, h, Removal.text]
    · exact stripPlain_sublist g t
    · refine stripShielded_sublist_of_not_doc hg hp ?_ hs
      rw [Bool.eq_false_iff]
      intro hd
      rcases (doc_iff_of_mem_grammars _ (mem_grammars_of_grammarOf? hg)).mp hd with hkey | hkey
      · exact hpy hkey
      · exact hpyw hkey
  · rcases removal_cases ext t with h | h | ⟨g, hg, -, ⟨-, h⟩ | ⟨hp, s, hs, h⟩⟩ <;>
      rw [remove, h, Removal.text]
    · exact hwhole
    · exact hwhole
    · obtain ⟨u, hu, hsub⟩ := hwhole
      exact ⟨u, hu, (stripPlain_sublist g t).trans hsub⟩
    · have hmem := mem_grammars_of_grammarOf? hg
      have htriple := triple_of_doc _ hmem ((doc_iff_of_mem_grammars _ hmem).mpr hkey)
      exact htriple ▸ exists_passed_of_shield? hg hp hs
  · obtain ⟨σ₁, σ₂, σ₃, hdel⟩ := exists_deletes_of_shield? hg hp hs
    rw [remove_eq_stripShielded hg hp hsize hs]
    exact hdel.sentinel_not_mem (shields_of_shield? hs) (sentinel_not_mem_of_shield? hq hs)

theorem remove_only_deletes_around_docstring :
    (remove "js".toText "a = 'b // c'; // d\n".toText).Sublist "a = 'b // c'; // d\n".toText ∧
    (∃ u, Passed (split true "def f():\n  '''doc'''\nx = '#' # y\n".toText) u ∧
      (remove "py".toText "def f():\n  '''doc'''\nx = '#' # y\n".toText).Sublist u) ∧
    ch '\x00' ∉ remove "js".toText "a = 'b // c'; // d\n".toText := by
  refine ⟨(remove_only_deletes _ _).1 (by decide) (by decide),
    (remove_only_deletes _ _).2.1 (.inl (by decide)), ?_⟩
  let s : Shielded := {
    text := "a = \x00STR0END\x00; // d\n".toText
    spans := #["'b // c'".toText]
    sentinel := '\x00' }
  exact (remove_only_deletes _ _).2.2 slashStar s (by decide) rfl (by cbv) (by decide) (by cbv)

end CodeCompaction.Comment
