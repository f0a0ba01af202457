import CodeCompaction.Proofs.Comment.Deletion
import CodeCompaction.Proofs.Comment.Joining
import CodeCompaction.Proofs.Minify.Generic

namespace CodeCompaction.Minify

open CodeCompaction.Text CodeCompaction.Literal CodeCompaction.Comment

def compactShielded (s : Shielded) : Text := s.restore (compactLines s.text)

section Choice

variable {ext t : Text} {triple : Bool} {g : Grammar} {s : Shielded} {c d : CodePoint}

theorem exists_stripShielded_eq (hg : isVisibleGrammar g = true) (t : Text) : ∃ ω : Row,
    ∀ s, Shields g.triple t s → stripShielded g s = tidied (fill (literalAt g.triple t) ω) := by
  obtain ⟨ω, hedits, hdelete⟩ := exists_delete_fill hg
    (fun j => ((literals (split g.triple t))[j]?).any isDoc) (slots g.triple t)
  refine ⟨ω, fun s hs => ?_⟩
  have hseats : Seats s id (fun j => ((literals (split g.triple t))[j]?).any isDoc) (slots g.triple t) := by
    refine ⟨hs.sentinel_mem, hs.absent.imp id (fun hfree hm => hfree (mem_of_char_mem_slots hm)), ?_⟩
    intro j _
    rw [hs.spans_eq, List.getElem?_toArray]
    rfl
  have hleft : delete g (some s) s.text = fill (placeholder s.mark) ω := by
    rw [hs.text_eq]
    exact hdelete s id hseats
  rw [stripShielded, tidy_eq_tidied, hleft, hs.restore_fill ?_ ?_, literal_eq_literalAt hs]
  · exact sentinel_absent_of_edits hedits hs.sentinel_mem
  · exact fun i => hole_mem_of_edits hedits

theorem compactShielded_eq (hs : Shields triple t s) :
    compactShielded s = fill (literalAt triple t) (compactRows (slots triple t)) := by
  have hides : Hides (placeholder s.mark) := s.hides_seat hs.sentinel_mem id
  have hrow : compactLines s.text = fill (placeholder s.mark) (compactRows (slots triple t)) := by
    rw [compactLines_eq_strip_lineByLine, hs.text_eq, fill_compactRows hides]
  rw [compactShielded, hrow, restore_compactRows hs, literal_eq_literalAt hs]

theorem sentinel_unobservable (hg : grammarOf? ext = some g) (hp : g.protects = true)
    (hc : c ∈ sentinels) (hd : d ∈ sentinels) (hct : c ∉ t) (hdt : d ∉ t) :
    stripShielded g (shieldWith c g.triple t) = stripShielded g (shieldWith d g.triple t) ∧
    compactShielded (shieldWith c g.triple t) = compactShielded (shieldWith d g.triple t) ∧
    (withinSize t = true → remove ext t = stripShielded g (shieldWith c g.triple t)) ∧
    (generic ext t).value = compactShielded (shieldWith c g.triple t) := by
  obtain ⟨ω, hstrip⟩ := exists_stripShielded_eq (isVisibleGrammar_of_grammarOf? hg hp) t
  obtain ⟨s, hs⟩ := exists_shield?_of_free hc hct g.triple
  have hshields := shields_of_shield? hs
  have hfirst : Shields g.triple t (shieldWith c g.triple t) := shields_shieldWith hc hct
  have hsecond : Shields g.triple t (shieldWith d g.triple t) := shields_shieldWith hd hdt
  refine ⟨?_, ?_, fun hsize => ?_, ?_⟩
  · rw [hstrip _ hfirst, hstrip _ hsecond]
  · rw [compactShielded_eq hfirst, compactShielded_eq hsecond]
  · rw [remove_eq_stripShielded hg hp hsize hs, hstrip s hshields, hstrip _ hfirst]
  · have htriple : (grammarOf? ext).any (·.triple) = g.triple := by rw [hg, Option.any_some]
    rw [value_generic (htriple ▸ hs), ← compactShielded, compactShielded_eq hshields, compactShielded_eq hfirst]

theorem sentinel_unobservable_in_script :
    ∃ g, grammarOf? "py".toText = some g ∧
      stripShielded g (shieldWith '\x08' g.triple "def f():\n  '''a\n\x00'''\n\nx = \"#\"  # y\n".toText) =
        stripShielded g (shieldWith '\x1b' g.triple "def f():\n  '''a\n\x00'''\n\nx = \"#\"  # y\n".toText) ∧
      compactShielded (shieldWith '\x08' g.triple "def f():\n  '''a\n\x00'''\n\nx = \"#\"  # y\n".toText) =
        compactShielded (shieldWith '\x1b' g.triple "def f():\n  '''a\n\x00'''\n\nx = \"#\"  # y\n".toText) ∧
      remove "py".toText "def f():\n  '''a\n\x00'''\n\nx = \"#\"  # y\n".toText =
        "def f():\n  pass\n\nx = \"#\"\n".toText := by
  let g : Grammar := { hashOnly with doc := true, triple := true }
  let s : Shielded := {
    text := "def f():\n  \x08STR0END\x08\n\nx = \x08STR1END\x08  # y\n".toText
    spans := #["'''a\n\x00'''".toText, "\"#\"".toText]
    sentinel := '\x08' }
  have hg : grammarOf? "py".toText = some g := by decide
  obtain ⟨hstrip, hcompact, hremove, -⟩ := sentinel_unobservable
    (t := "def f():\n  '''a\n\x00'''\n\nx = \"#\"  # y\n".toText) hg rfl (show ch '\x08' ∈ sentinels by decide)
    (show ch '\x1b' ∈ sentinels by decide) (by decide) (by decide)
  have hs : shieldWith '\x08' g.triple "def f():\n  '''a\n\x00'''\n\nx = \"#\"  # y\n".toText = s := by cbv
  have hleft : delete g (some s) s.text = "def f():\n  pass\n\nx = \x08STR1END\x08  \n".toText := by
    decide +kernel
  refine ⟨g, hg, hstrip, hcompact, (hremove (by decide)).trans ?_⟩
  rw [hs, stripShielded, hleft]
  cbv

end Choice

section Collision

variable {limit : Json.NestingLimit} {ext t : Text} {g : Grammar}

theorem not_doc_of_generic (hg : grammarOf? ext = some g) (hf : familyOf ext = .generic) : g.doc = false := by
  have hscript : ∀ key ∈ ["py".toText, "pyw".toText],
      lists whitespaceSignificantExtensions key = true := by decide
  rw [Bool.eq_false_iff]
  intro hdoc
  have hkey : extensionKey ext ∈ ["py".toText, "pyw".toText] := by
    simpa using (doc_iff_of_mem_grammars _ (mem_grammars_of_grammarOf? hg)).mp hdoc
  rw [familyOf, if_pos (hscript _ hkey)] at hf
  exact absurd hf (by decide)

theorem tryShield_of_shield? {s : Shielded} (h : shield? ((grammarOf? ext).any (·.triple)) t = some s) :
    tryShield ext t = pure (some s) := by
  rw [tryShield, h]

theorem minify_of_generic (hf : familyOf ext = .generic) (hsize : withinSize t = true) :
    minify limit ext t = (generic ext (remove ext t)).value := by
  rw [minify_eq, if_pos hsize, hf, compacted]

theorem collision_leaves_text (hg : grammarOf? ext = some g) (hp : g.protects = true)
    (hf : familyOf ext = .generic) (hsize : withinSize t = true) :
    (shield? g.triple t = none → remove ext t = t ∧ minify limit ext t = t) ∧
    ∀ s, shield? g.triple t = some s →
      ∃ s', tryShield ext (remove ext t) = pure (some s') ∧ minify limit ext t = compactShielded s' := by
  have htriple : (grammarOf? ext).any (·.triple) = g.triple := by rw [hg, Option.any_some]
  refine ⟨fun hnone => ?_, fun s hs => ?_⟩
  · have hremove : remove ext t = t := by
      simp [remove, removal, hsize, hg, hp, hnone, Removal.text]
    refine ⟨hremove, ?_⟩
    rw [minify_of_generic hf hsize, hremove]
    simp only [generic, tryShield, htriple, hnone, Logged.value_bind, Logged.value_pure]
  · -- the removal only deletes, so no quote and no sentinel is new
    have hsub : (remove ext t).Sublist t := by
      rw [remove_eq_stripShielded hg hp hsize hs]
      exact stripShielded_sublist_of_not_doc hg hp (not_doc_of_generic hg hf) hs
    obtain ⟨s', hs'⟩ := exists_shield?_of_subset hs hsub.subset
    rw [← htriple] at hs'
    exact ⟨s', tryShield_of_shield? hs', by rw [minify_of_generic hf hsize, value_generic hs', compactShielded]⟩

theorem collision_leaves_text_of_sentinels :
    (remove "js".toText (sentinels ++ "'a'  // b\n".toText) = sentinels ++ "'a'  // b\n".toText ∧
      minify .usual "js".toText (sentinels ++ "'a'  // b\n".toText) = sentinels ++ "'a'  // b\n".toText) ∧
    ∃ s', tryShield "js".toText (remove "js".toText "x\t= 'a'; // \x00\n".toText) = pure (some s') ∧
      minify .usual "js".toText "x\t= 'a'; // \x00\n".toText = compactShielded s' := by
  have hg : grammarOf? "js".toText = some slashStar := by decide
  have hf : familyOf "js".toText = .generic := by decide
  have hnone : shield? slashStar.triple (sentinels ++ "'a'  // b\n".toText) = none :=
    shield?_eq_none_iff.mpr ⟨⟨'\'', by decide, by decide⟩, fun c hc => List.mem_append_left _ hc⟩
  have hsome : shield? slashStar.triple "x\t= 'a'; // \x00\n".toText = some
      { text := "x\t= \x01STR0END\x01; // \x00\n".toText
        spans := #["'a'".toText]
        sentinel := '\x01' } := by cbv
  exact ⟨(collision_leaves_text hg rfl hf (by decide)).1 hnone,
    (collision_leaves_text hg rfl hf (by decide)).2 _ hsome⟩

end Collision

end CodeCompaction.Minify
