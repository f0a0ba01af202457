import CodeCompaction.Proofs.Comment.Erasure
import CodeCompaction.Proofs.Literal.Ends

namespace CodeCompaction.Comment

open CodeCompaction.Text CodeCompaction.Literal

structure ClosedLiteral (x : Text) : Prop where
  oneLine : ch '\n' ∉ x
  quoted : ∃ q body, isQuote q = true ∧ x = q :: (body ++ [q])

theorem ClosedLiteral.sturdy {x : Text} (h : ClosedLiteral x) : Sturdy x := by
  obtain ⟨q, body, hq, rfl⟩ := h.quoted
  refine sturdy_of_no_newline h.oneLine ?_
  rw [← List.cons_append, endsFirm_append_singleton]
  exact isFirm_of_isQuote hq

theorem remove_of_shield? {ext t : Text} {g : Grammar} {s : Shielded} (hg : grammarOf? ext = some g)
    (hp : g.protects = true) (hsize : withinSize t = true) (hs : shield? g.triple t = some s) :
    remove ext t = tidied (s.restore (delete g (some s) s.text)) := by
  simp [remove, removal, hsize, hg, hp, hs, Removal.text, stripShielded, tidy_eq_tidied]

theorem remove_of_unprotected {ext t : Text} {g : Grammar} (hg : grammarOf? ext = some g)
    (hp : g.protects = false) (hsize : withinSize t = true) : remove ext t = tidied (delete g none t) := by
  simp [remove, removal, hsize, hg, hp, Removal.text, stripPlain, tidy_eq_tidied]

theorem delete_of_not_doc {g : Grammar} (h : g.doc = false) (s? : Option Shielded) (t : Text) :
    delete g s? t = eraseLines g (eraseBlocks g t) := by
  simp [delete, removeDocs, h]

theorem remove_opaque_to_literals {ext : Text} {g : Grammar} (hg : grammarOf? ext = some g)
    (hp : g.protects = true) (hd : g.doc = false) (gs : List Text) :
    ∃ (is : List Nat) (hs : List Text), is.Pairwise (· < ·) ∧ (∀ i ∈ is, i < gs.length - 1) ∧
      hs.length = is.length + 1 ∧
      ∀ (ss : List Text) (s : Shielded), gs.length = ss.length + 1 →
        (∀ x ∈ ss, ClosedLiteral x) →
        withinSize (weave gs ss) = true →
        shield? g.triple (weave gs ss) = some s →
        s.spans.toList = ss →
        s.text = weave gs ((List.range ss.length).map (placeholder s.mark)) →
        remove ext (weave gs ss) = weave hs (is.map (fun i => (ss[i]?).getD [])) := by
  obtain ⟨ω₁, htrim, herase⟩ := exists_eraseComments_fill (isVisibleGrammar_of_grammarOf? hg hp)
    (lay gs (List.range (gs.length - 1)))
  obtain ⟨ω, hsub, htidy⟩ := exists_tidied_fill ω₁
  have hholes : (holes ω₁).Sublist (List.range (gs.length - 1)) :=
    (holes_sublist htrim.sublist).trans (holes_lay_sublist gs _)
  have hrange : (holes ω).Sublist (List.range (gs.length - 1)) := (holes_sublist hsub).trans hholes
  refine ⟨holes ω, gaps ω, List.Pairwise.sublist hrange List.pairwise_lt_range,
    fun i hi => List.mem_range.mp (hrange.subset hi), length_gaps ω, ?_⟩
  intro ss s hlen hclosed hsize hs hspans htext
  have hk : gs.length - 1 = ss.length := by omega
  rw [hk] at htrim herase hholes
  have hshields := shields_of_shield? hs
  have hspan (i : Nat) (hi : Slot.hole i ∈ ω₁) :
      ∃ x ∈ ss, ss[i]? = some x := by
    have hlt : i < ss.length := List.mem_range.mp (hholes.subset (mem_holes.mpr hi))
    exact ⟨ss[i], List.getElem_mem hlt, List.getElem?_eq_getElem hlt⟩
  have hdelete : delete g (some s) s.text = fill (placeholder s.mark) ω₁ := by
    rw [delete_of_not_doc hd, htext, ← fill_lay]
    exact herase _ (hides_placeholder hshields.sentinel_mem id)
  have hrestore : s.restore (fill (placeholder s.mark) ω₁) =
      fill (fun i => (ss[i]?).getD []) ω₁ := by
    refine Shielded.restore_fill (r := id) (hshields.absent.imp id ?_) ?_
    · intro hfree hmem
      apply hfree
      rw [weave_eq_fill]
      exact mem_fill _ |>.mpr (.inl (htrim.sublist.subset hmem))
    · intro i hi
      obtain ⟨x, -, hx⟩ := hspan i hi
      rw [id, ← Array.getElem?_toList, hspans, hx, Option.getD_some]
  rw [remove_of_shield? hg hp hsize hs, hdelete, hrestore, htidy, fill_eq_weave]
  intro i hi
  obtain ⟨x, hmem, hx⟩ := hspan i hi
  rw [hx, Option.getD_some]
  exact (hclosed x hmem).sturdy

theorem remove_opaque_to_comment_marks :
    ∃ (is : List Nat) (hs : List Text), is.Pairwise (· < ·) ∧ (∀ i ∈ is, i < 3) ∧
      hs.length = is.length + 1 ∧
      remove "js".toText "x = 'a // b' + \"/*\"; // '*/'\n".toText =
        weave hs (is.map (fun i =>
          (["'a // b'".toText, "\"/*\"".toText, "'*/'".toText][i]?).getD [])) := by
  obtain ⟨is, hs, hsorted, hlt, hlen, hremove⟩ := remove_opaque_to_literals
    (show grammarOf? "js".toText = some slashStar by decide) rfl rfl
    ["x = ".toText, " + ".toText, "; // ".toText, "\n".toText]
  refine ⟨is, hs, hsorted, hlt, hlen, ?_⟩
  refine hremove ["'a // b'".toText, "\"/*\"".toText, "'*/'".toText]
    { text := "x = \x00STR0END\x00 + \x00STR1END\x00; // \x00STR2END\x00\n".toText
      spans := #["'a // b'".toText, "\"/*\"".toText, "'*/'".toText]
      sentinel := '\x00' } rfl ?_ (by cbv) (by cbv) rfl (by cbv)
  intro x hx
  simp only [List.mem_cons, List.not_mem_nil, or_false] at hx
  rcases hx with rfl | rfl | rfl
  · exact ⟨by decide, '\'', "a // b".toText, by decide, by decide⟩
  · exact ⟨by decide, '"', "/*".toText, by decide, by decide⟩
  · exact ⟨by decide, '\'', "*/".toText, by decide, by decide⟩

end CodeCompaction.Comment
