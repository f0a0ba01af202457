import CodeCompaction.Proofs.Comment.Deletion

namespace CodeCompaction.Comment

open CodeCompaction.Text CodeCompaction.Literal

structure CommentFree (g : Grammar) (s? : Option Shielded) (t : Text) : Prop where
  docs : removeDocs g s? t = t
  blocks : ∀ m, g.block? = some m → spans m.pattern t = []
  lines : ∀ m, g.line? = some m → spans m.pattern t = []

structure ReadsClean (ext u : Text) : Prop where
  plain : ∀ g, grammarOf? ext = some g → withinSize u = true → g.protects = false →
    CommentFree g none u
  shielded : ∀ g s, grammarOf? ext = some g → withinSize u = true → g.protects = true →
    shield? g.triple u = some s → CommentFree g (some s) s.text

section Steps

variable {g : Grammar} {t : Text}

theorem eraseBlocks_eq_self_iff :
    eraseBlocks g t = t ↔ ∀ m, g.block? = some m → spans m.pattern t = [] := by
  unfold eraseBlocks
  cases g.block? with
  | none => simp
  | some m => simp [erase_eq_self_iff]

theorem eraseLines_eq_self_iff :
    eraseLines g t = t ↔ ∀ m, g.line? = some m → spans m.pattern t = [] := by
  unfold eraseLines
  cases g.line? with
  | none => simp
  | some m => simp [erase_eq_self_iff]

theorem CommentFree.delete_eq {s? : Option Shielded} (h : CommentFree g s? t) :
    delete g s? t = t := by
  rw [delete, h.docs, eraseBlocks_eq_self_iff.mpr h.blocks, eraseLines_eq_self_iff.mpr h.lines]

theorem commentFree_of_steps {s? : Option Shielded} (hdocs : removeDocs g s? t = t)
    (hblocks : eraseBlocks g t = t) (hlines : eraseLines g t = t) : CommentFree g s? t :=
  ⟨hdocs, eraseBlocks_eq_self_iff.mp hblocks, eraseLines_eq_self_iff.mp hlines⟩

end Steps

section Shorter

variable {d : Nat → Bool} {lit : Nat → Text} {σ' σ : Row}

def Weighty (d : Nat → Bool) (lit : Nat → Text) (σ : Row) : Prop :=
  ∀ j, Slot.hole j ∈ σ → lit j ≠ [] ∧ (d j = true → 6 ≤ (lit j).length)

theorem Weighty.tail {x : Slot} (h : Weighty d lit (x :: σ)) : Weighty d lit σ :=
  fun j hj => h j (List.mem_cons_of_mem _ hj)

theorem Weighty.prunes (h : Weighty d lit σ) (hσ : Prunes d σ' σ) : Weighty d lit σ' :=
  fun j hj => h j (hσ.hole_mem hj)

namespace Prunes

theorem length_lt_or_eq (h : Prunes d σ' σ) (hw : Weighty d lit σ) :
    (fill lit σ').length < (fill lit σ).length ∨ σ' = σ := by
  induction h with
  | nil => exact .inr rfl
  | keep x _ ih =>
      rcases ih hw.tail with hlt | rfl
      · cases x <;> exact .inl (by simpa using hlt)
      · exact .inr rfl
  | @drop x τ' τ _ ih =>
      have hx : 0 < (x.fill lit).length := by
        cases x with
        | char c => exact Nat.zero_lt_one
        | hole j => exact List.length_pos_iff.mpr (hw j (List.mem_cons_self ..)).1
      have hcons : (fill lit (x :: τ)).length = (x.fill lit).length + (fill lit τ).length := by
        rw [fill, List.flatMap_cons, List.length_append, ← fill]
      rcases ih hw.tail with hlt | rfl <;> exact .inl (by omega)
  | @pass j τ' τ doc _ ih =>
      -- six quotes at least give way to four letters
      have hj := (hw j (List.mem_cons_self ..)).2 doc
      have hpass : "pass".toText.length = 4 := rfl
      rw [fill_append, fill_ofText, fill_hole, List.length_append, List.length_append]
      rcases ih hw.tail with hlt | rfl <;> exact .inl (by omega)

theorem length_le (h : Prunes d σ' σ) (hw : Weighty d lit σ) :
    (fill lit σ').length ≤ (fill lit σ).length := by
  rcases h.length_lt_or_eq hw with hlt | rfl
  · exact hlt.le
  · exact Nat.le_refl _

theorem eq_of_length_le (h : Prunes d σ' σ) (hw : Weighty d lit σ)
    (hlen : (fill lit σ).length ≤ (fill lit σ').length) : σ' = σ :=
  (h.length_lt_or_eq hw).resolve_left (Nat.not_lt.mpr hlen)

end Prunes

end Shorter

theorem length_of_isDoc {x : Text} (h : isDoc x = true) : 6 ≤ x.length := by
  simp only [isDoc, List.any_eq_true, Bool.and_eq_true, decide_eq_true_eq] at h
  obtain ⟨q, -, ⟨hlen, -⟩, -⟩ := h
  exact hlen

theorem weighty_of_shields {triple : Bool} {u : Text} {s : Shielded} (h : Shields triple u s) :
    Weighty (documented s) s.literal (slots triple u) := by
  intro j hj
  have hspan := h.literal_eq hj
  constructor
  · rw [h.spans_eq, List.getElem?_toArray] at hspan
    obtain ⟨q, x, hx, -⟩ := quoted_of_mem_literals (List.mem_of_getElem? hspan)
    simp [hx]
  · intro hd
    rw [documented, hspan, Option.any_some] at hd
    exact length_of_isDoc hd

theorem Deletes.commentFree {g : Grammar} {s : Shielded} {u : Text} {σ₁ σ₂ σ₃ : Row}
    (h : Deletes g s (documented s) (slots g.triple u) σ₁ σ₂ σ₃) (hs : Shields g.triple u s)
    (hlen : u.length ≤ (fill s.literal σ₃).length) : CommentFree g (some s) s.text := by
  have hw := weighty_of_shields hs
  have hblocks : Prunes (documented s) σ₂ σ₁ := .of_sublist h.blocks
  have hlines : Prunes (documented s) σ₃ σ₂ := .of_sublist h.lines
  have hw₁ := hw.prunes h.docs
  have hw₂ := hw₁.prunes hblocks
  have h₁ := h.docs.length_le hw
  have h₂ := hblocks.length_le hw₁
  have h₃ := hlines.length_le hw₂
  rw [← hs.fill_literal] at hlen
  obtain rfl := h.docs.eq_of_length_le hw (by omega)
  obtain rfl := hblocks.eq_of_length_le hw₁ (by omega)
  obtain rfl := hlines.eq_of_length_le hw₂ (by omega)
  rw [hs.text_eq]
  exact commentFree_of_steps h.docs_eq h.blocks_eq h.lines_eq

section Fixed

variable {ext t u : Text} {g : Grammar} {s : Shielded}

theorem commentFree_of_length_le (h : u.length ≤ (delete g none u).length) :
    CommentFree g none u := by
  have hdocs := removeDocs_none_sublist g u
  have hblocks := eraseBlocks_sublist g (removeDocs g none u)
  have hlines := eraseLines_sublist g (eraseBlocks g (removeDocs g none u))
  have h₁ := hdocs.length_le
  have h₂ := hblocks.length_le
  have h₃ := hlines.length_le
  rw [delete] at h
  have hdocs_eq := hdocs.eq_of_length_le (by omega)
  have hblocks_eq := hblocks.eq_of_length_le (by omega)
  have hlines_eq := hlines.eq_of_length_le (by omega)
  rw [hblocks_eq, hdocs_eq] at hlines_eq
  rw [hdocs_eq] at hblocks_eq
  exact commentFree_of_steps hdocs_eq hblocks_eq hlines_eq

theorem stripPlain_eq_self_iff (h : tidied u = u) : stripPlain g u = u ↔ CommentFree g none u := by
  rw [stripPlain, tidy_eq_tidied]
  constructor
  · intro heq
    exact commentFree_of_length_le
      ((congrArg List.length heq).symm.trans_le (tidied_sublist _).length_le)
  · intro hfree
    rw [hfree.delete_eq, h]

theorem stripShielded_eq_self_iff (hg : grammarOf? ext = some g) (hp : g.protects = true)
    (hs : shield? g.triple u = some s) (h : tidied u = u) :
    stripShielded g s = u ↔ CommentFree g (some s) s.text := by
  have hshields := shields_of_shield? hs
  constructor
  · intro heq
    obtain ⟨σ₁, σ₂, σ₃, hdel⟩ := exists_deletes_of_shield? hg hp hs
    rw [hdel.stripShielded_eq hshields] at heq
    exact hdel.commentFree hshields
      ((congrArg List.length heq).symm.trans_le (tidied_sublist _).length_le)
  · intro hfree
    rw [stripShielded, tidy_eq_tidied, hfree.delete_eq, hshields.restore_text, h]

theorem readsClean_of_untreated (h : removal ext u = .untouched ∨ removal ext u = .collided) :
    ReadsClean ext u := by
  constructor
  · intro g hg hsize hp
    simp [removal, hsize, hg, hp] at h
  · intro g s hg hsize hp hs
    simp [removal, hsize, hg, hp, hs] at h

theorem readsClean_iff_plain (hg : grammarOf? ext = some g) (hsize : withinSize u = true)
    (hp : g.protects = false) : ReadsClean ext u ↔ CommentFree g none u := by
  constructor
  · intro h
    exact h.plain g hg hsize hp
  · intro h
    refine ⟨fun g' hg' _ _ => ?_, fun g' s' hg' _ hp' _ => ?_⟩
    · obtain rfl := Option.some.inj (hg.symm.trans hg')
      exact h
    · obtain rfl := Option.some.inj (hg.symm.trans hg')
      simp [hp] at hp'

theorem readsClean_iff_shielded (hg : grammarOf? ext = some g) (hsize : withinSize u = true)
    (hp : g.protects = true) (hs : shield? g.triple u = some s) :
    ReadsClean ext u ↔ CommentFree g (some s) s.text := by
  constructor
  · intro h
    exact h.shielded g s hg hsize hp hs
  · intro h
    refine ⟨fun g' hg' _ hp' => ?_, fun g' s' hg' _ _ hs' => ?_⟩
    · obtain rfl := Option.some.inj (hg.symm.trans hg')
      simp [hp] at hp'
    · obtain rfl := Option.some.inj (hg.symm.trans hg')
      obtain rfl := Option.some.inj (hs.symm.trans hs')
      exact h

theorem remove_eq_self_iff (h : tidied u = u) : remove ext u = u ↔ ReadsClean ext u := by
  rcases removal_cases ext u with huntouched | hcollided | ⟨g, hg, hsize, ⟨hp, hplain⟩ | ⟨hp, s, hs, hshielded⟩⟩
  · exact iff_of_true (by rw [remove, huntouched]; rfl) (readsClean_of_untreated (.inl huntouched))
  · exact iff_of_true (by rw [remove, hcollided]; rfl) (readsClean_of_untreated (.inr hcollided))
  · rw [remove, hplain, Removal.text, stripPlain_eq_self_iff h, readsClean_iff_plain hg hsize hp]
  · rw [remove, hshielded, Removal.text, stripShielded_eq_self_iff hg hp hs h,
      readsClean_iff_shielded hg hsize hp hs]

theorem tidied_remove_or_eq (ext t : Text) :
    (remove ext t = t ∧ (removal ext t = .untouched ∨ removal ext t = .collided)) ∨
      tidied (remove ext t) = remove ext t := by
  rcases removal_cases ext t with h | h | ⟨g, -, -, ⟨-, h⟩ | ⟨-, s, -, h⟩⟩
  · exact .inl ⟨by rw [remove, h]; rfl, .inl h⟩
  · exact .inl ⟨by rw [remove, h]; rfl, .inr h⟩
  · rw [remove, h, Removal.text, stripPlain, tidy_eq_tidied]
    exact .inr (tidied_tidied _)
  · rw [remove, h, Removal.text, stripShielded, tidy_eq_tidied]
    exact .inr (tidied_tidied _)

end Fixed

theorem remove_remove_eq_iff (ext t : Text) :
    remove ext (remove ext t) = remove ext t ↔ ReadsClean ext (remove ext t) := by
  rcases tidied_remove_or_eq ext t with ⟨hsame, huntreated⟩ | htidy
  · rw [hsame]
    exact iff_of_true hsame (readsClean_of_untreated huntreated)
  · exact remove_eq_self_iff htidy

theorem not_idempotent_on_nested_block :
    ¬ ∀ ext t : Text, remove ext (remove ext t) = remove ext t := by
  intro h
  have honce : remove "js".toText "//**/* x */\n".toText = "/* x */\n".toText := by cbv
  have htwice : remove "js".toText "/* x */\n".toText = "\n".toText := by cbv
  have heq := h "js".toText "//**/* x */\n".toText
  rw [honce, htwice] at heq
  exact absurd heq (by decide)

end CodeCompaction.Comment
