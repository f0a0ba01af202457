import CodeCompaction.Proofs.Comment.DocRows
import CodeCompaction.Proofs.Comment.Opacity
import CodeCompaction.Proofs.Literal.Boundary

namespace CodeCompaction.Comment

open CodeCompaction.Text CodeCompaction.Literal

inductive MarkFamily : Grammar → Text → Prop where
  | slashes : MarkFamily slashStar "//".toText
  | hash {g : Grammar} (protects : g.protects = true) (line : g.line? = some hash)
      (block : g.block? = none) : MarkFamily g "#".toText

-- the extensions of the two families
example : (["js", "mjs", "cjs", "ts", "mts", "tsx", "jsx", "c", "h", "cpp", "hpp", "cc", "cs", "java", "go",
    "rs"].all (fun e => grammarOf? e.toText == some slashStar)) = true := by decide +kernel

example : (["py", "pyw", "pyx", "sh", "bash", "zsh", "fish", "r", "yaml", "yml", "toml", "conf", "pl",
    "pm"].all (fun e => (grammarOf? e.toText).any
      (fun g => g.protects && g.line? == some hash && g.block? == none))) = true := by decide +kernel

structure Preamble (g : Grammar) (m p : Text) : Prop where
  ends : EndsLine p
  quoteless : p.any isQuote = false
  markless : ¬ m <:+: p
  blockless : g.block? = some .starred → ¬ [ch '/', '*'] <:+: p

/-- The line feed behind `front ++ c` lies in no literal, and no block comment takes it or the character
before `c`. -/
def EndsComment (g : Grammar) (front c u : Text) (s : Shielded) : Prop :=
  ∃ ps, PartsAt g.triple (front ++ c) u ps ∧ ∀ b, g.block? = some b →
    Uncovered b.pattern s.text (front.length - 1) ∧
      Uncovered b.pattern s.text (renderFrom s.mark 0 ps).length

namespace MarkFamily

variable {g : Grammar} {m : Text}

theorem line_eq (h : MarkFamily g m) : g.line? = some (.anywhere [m]) := by
  cases h with
  | slashes => rfl
  | hash _ line _ => exact line

theorem isVisible_mark (h : MarkFamily g m) : isVisible m = true := by
  cases h <;> decide

theorem protects_eq (h : MarkFamily g m) : g.protects = true := by
  cases h with
  | slashes => rfl
  | hash protects _ _ => exact protects

theorem quoteless (h : MarkFamily g m) : m.any isQuote = false := by
  cases h <;> decide

theorem isVisibleGrammar_eq (h : MarkFamily g m) : isVisibleGrammar g = true := by
  cases h with
  | slashes => decide
  | hash _ line block =>
      simp only [isVisibleGrammar, line, block]
      decide

end MarkFamily

section LineComment

variable {g : Grammar} {m p k y : Text}

theorem eraseLines_comment (hline : g.line? = some (.anywhere [m])) (hm : isVisible m = true)
    (hends : EndsLine p) (hmark : ¬ m <:+: p) (hk : ch '\n' ∉ k) (hy : y = [] ∨ ∃ y', y = ch '\n' :: y') :
    eraseLines g (p ++ (m ++ k ++ y)) = p ++ eraseLines g y := by
  have hblind : Blind (LineMark.anywhere [m]).pattern := blind_anywhere (by simpa using hm)
  have hnewline : ch '\n' ∉ m := fun h => ne_newline_of_isVisible hm h rfl
  have hlength : lineLength (m ++ k ++ y) = (m ++ k).length := by
    have hline : ch '\n' ∉ m ++ k := by simp [hnewline, hk]
    rcases hy with rfl | ⟨y', rfl⟩
    · rw [List.append_nil, lineLength_of_no_newline hline]
    · rw [lineLength_append_newline, lineLength_of_no_newline hline]
  have hopen : opens [m] (m ++ k ++ y) = true := by
    rw [opens, List.any_cons, List.any_nil, Bool.or_false, List.append_assoc]
    exact List.isPrefixOf_iff_prefix.mpr (List.prefix_append ..)
  simp only [eraseLines, hline]
  rw [erase_append_of_none hblind.flagless, erase_append_of_match hblind.flagless]
  · simp [ne_nil_of_isVisible hm]
  · simp only [LineMark.pattern, hopen, if_true, hlength]
  · intro x c z hxz
    have hfront := hends.isPrefixOf_eq_false hnewline hmark hxz (m ++ k ++ y)
    simp only [LineMark.pattern, opens, List.any_cons, List.any_nil, hfront, Bool.or_false,
      Bool.false_eq_true, if_false]

theorem codePart_comment (hline : g.line? = some (.anywhere [m])) (hm : isVisible m = true)
    (hk : ch '\n' ∉ k) : codePart g (m ++ k) = [] := by
  have := eraseLines_comment (p := []) (y := []) hline hm (.inl rfl)
    (by simpa [List.infix_nil] using ne_nil_of_isVisible hm) hk (.inl rfl)
  rw [List.nil_append, List.append_nil, List.nil_append] at this
  rw [codePart_eq, this]
  unfold eraseLines
  cases g.line? <;> rfl

end LineComment

def Continues (η : Row) : Prop := η = [] ∨ ∃ η', η = .char '\n' :: η'

theorem Continues.fill {η : Row} (h : Continues η) (e : Nat → Text) :
    fill e η = [] ∨ ∃ y, fill e η = ch '\n' :: y := by
  rcases h with rfl | ⟨η', rfl⟩
  · exact .inl rfl
  · exact .inr ⟨Literal.fill e η', rfl⟩

theorem exists_removeDocs_comment {g : Grammar} {p : Text} (hg : isVisibleGrammar g = true)
    (hline : g.line? = some hash) (hends : EndsLine p) (d : Nat → Bool) (σ : Row) :
    ∃ η, Continues η ∧ Edits η (.char '\n' :: σ) ∧ ∀ s r k, Seats s r d σ →
      (s.spans = #[] ∨ s.sentinel ∉ p) → ch '\n' ∉ k →
        removeDocs g (some s) (p ++ ("#".toText ++ k ++ ch '\n' :: fill (s.seat r) σ)) =
          p ++ ("#".toText ++ k ++ fill (s.seat r) η) := by
  cases hdoc : g.doc with
  | false =>
      exact ⟨.char '\n' :: σ, .inr ⟨σ, rfl⟩, (Trims.refl _).edits,
        fun s r k _ _ _ => removeDocs_of_not_doc hdoc _ _⟩
  | true =>
      obtain ⟨ls, hls, hlines, hunlines⟩ := hends.exists_lines
      obtain ⟨previous, depth, hfront⟩ := exists_docRun_append g ls none 0
      obtain ⟨rs', hculls, hrun⟩ := exists_docRun_fill hg d (rows σ) (previous.map ofText) depth
      refine ⟨if rs' = [] then [] else .char '\n' :: joinRows rs', ?_, ?_, ?_⟩
      · split
        · exact .inl rfl
        · exact .inr ⟨_, rfl⟩
      · split
        · exact ⟨List.nil_sublist _, by simp, fun _ _ => trivial⟩
        · obtain ⟨hholes, hchar, hkeeps⟩ := hculls.edits
          refine ⟨hholes, ?_, fun fits hk => hkeeps fits hk⟩
          intro c hc
          rcases List.mem_cons.mp hc with hc | hc
          · exact .inl (hc ▸ List.mem_cons_self ..)
          · exact (hchar c hc).imp (List.mem_cons_of_mem _) id
      · intro s r k hs hfree hk
        have hcomment : ch '\n' ∉ "#".toText ++ k := by simpa using hk
        have hcut : lines (p ++ ("#".toText ++ k ++ ch '\n' :: fill (s.seat r) σ)) =
            ls ++ ("#".toText ++ k) :: (rows σ).map (fill (s.seat r)) := by
          rw [hlines, lines_append_newline_of_no_newline hcomment, lines_fill hs.hides]
        have hmark : placeholderLine? s.mark ("#".toText ++ k) = none := by
          refine placeholderLine?_cons_of_ne rfl ?_ k
          rintro heq
          have hsentinel := hs.sentinel_mem
          rw [← heq] at hsentinel
          exact absurd hsentinel (by decide)
        have hprevious : (previous.map ofText).map (fill (s.seat r)) = previous := by
          cases previous <;> simp
        have hrows := hrun s r (fun ρ hρ => hs.mono (fun x hx => exists_mem_of_mem_rows hρ hx))
        rw [hprevious] at hrows
        rw [removeDocs_eq_docRun hdoc, hcut,
          hfront s (hfree.imp id (fun hc l hl hm => hc (hls l hl _ hm))),
          docRun_cons_of_no_code (codePart_comment hline (by decide) hk) hmark, hrows,
          hunlines _ (by simp)]
        split
        · rename_i hnil
          subst hnil
          simp
        · rename_i hne
          rw [unlines_cons_of_ne_nil _ (by simpa using hne), fill_char, fill_joinRows]

theorem starred_pattern_of_ne {c d : CodePoint} (h : ¬ (c = '/' ∧ d = '*')) (t : Text) :
    BlockMark.starred.pattern true (c :: d :: t) = none := by
  have hp : [ch '/', '*'].isPrefixOf (c :: d :: t) = false := by
    rw [Bool.eq_false_iff]
    intro hp
    obtain ⟨u, hu⟩ := List.isPrefixOf_iff_prefix.mp hp
    simp only [List.cons_append, List.cons.injEq] at hu
    exact h ⟨hu.1.symm, hu.2.1.symm⟩
  rw [BlockMark.pattern, BlockMark.length?, behind, hp, if_neg Bool.false_ne_true]

theorem exists_eraseBlocks_comment {p k t : Text} (hends : EndsLine p) (hblock : ¬ [ch '/', '*'] <:+: p)
    (hmark : Uncovered BlockMark.starred.pattern (p ++ ("//".toText ++ k ++ ch '\n' :: t)) (p.length + 1))
    (hline : Uncovered BlockMark.starred.pattern (p ++ ("//".toText ++ k ++ ch '\n' :: t))
      (p.length + (2 + k.length))) :
    ∃ k', k'.Sublist k ∧ eraseBlocks slashStar (p ++ ("//".toText ++ k ++ ch '\n' :: t)) =
      p ++ ("//".toText ++ k' ++ ch '\n' :: eraseBlocks slashStar t) := by
  have hblind : Blind BlockMark.starred.pattern := blind_block rfl
  have hfront : ∀ x c z, p = x ++ c :: z → BlockMark.starred.pattern true
      (c :: (z ++ ("//".toText ++ k ++ ch '\n' :: t))) = none := by
    intro x c z hxz
    have := hends.isPrefixOf_eq_false (by decide) hblock hxz ("//".toText ++ k ++ ch '\n' :: t)
    rw [BlockMark.pattern, BlockMark.length?, behind, this, if_neg Bool.false_ne_true]
  have hslash : BlockMark.starred.pattern true (ch '/' :: ch '/' :: (k ++ ch '\n' :: t)) = none :=
    starred_pattern_of_ne (by decide) _
  have hmark₁ := (hmark.of_append hblind.flagless hfront).tail hblind.flagless hslash
  have hslash' := hmark₁.none_at_head (hblind.positive _)
  have hline₁ := hline.of_append hblind.flagless hfront
  rw [Nat.add_comm 2] at hline₁
  have hline₂ := (hline₁.tail hblind.flagless hslash).tail hblind.flagless hslash'
  obtain ⟨k', hsub, hseam⟩ := erase_seam hline₂
  refine ⟨k', hsub, ?_⟩
  change erase BlockMark.starred.pattern _ = p ++ ("//".toText ++ k' ++
    ch '\n' :: erase BlockMark.starred.pattern t)
  rw [erase_append_of_none hblind.flagless p _ hfront]
  change p ++ erase BlockMark.starred.pattern (ch '/' :: ch '/' :: (k ++ ch '\n' :: t)) = _
  rw [erase_cons_of_none hblind.flagless hslash, erase_cons_of_none hblind.flagless hslash', hseam]
  rfl

theorem exists_comment_left {g : Grammar} {m p : Text} (hf : MarkFamily g m) (hp : Preamble g m p)
    (d : Nat → Bool) (σ : Row) : ∃ η, Continues η ∧ Edits η (.char '\n' :: σ) ∧
      ∀ s r k, Seats s r d σ → (s.spans = #[] ∨ s.sentinel ∉ p) → ch '\n' ∉ k →
        (∀ b, g.block? = some b →
          Uncovered b.pattern (p ++ (m ++ k ++ ch '\n' :: fill (s.seat r) σ)) ((p ++ m).length - 1) ∧
          Uncovered b.pattern (p ++ (m ++ k ++ ch '\n' :: fill (s.seat r) σ)) (p ++ m ++ k).length) →
        ∃ k', ch '\n' ∉ k' ∧
          eraseBlocks g (removeDocs g (some s) (p ++ (m ++ k ++ ch '\n' :: fill (s.seat r) σ))) =
            p ++ (m ++ k' ++ fill (s.seat r) η) := by
  cases hf with
  | slashes =>
      obtain ⟨σ', htrim, herase⟩ := exists_eraseBlocks_fill (g := slashStar) (by decide) σ
      refine ⟨.char '\n' :: σ', .inr ⟨σ', rfl⟩, (htrim.cons _).edits, fun s r k hs _ hk hblocks => ?_⟩
      obtain ⟨hmark, hline⟩ := hblocks .starred rfl
      rw [List.length_append] at hmark
      rw [List.length_append, List.length_append, Nat.add_assoc] at hline
      obtain ⟨k', hsub, hk'⟩ := exists_eraseBlocks_comment hp.ends (hp.blockless rfl) hmark hline
      refine ⟨k', fun h => hk (hsub.subset h), ?_⟩
      rw [removeDocs_of_not_doc rfl, hk', herase _ hs.hides, fill_char]
  | hash _ line block =>
      obtain ⟨η, hη, hedits, hdocs⟩ := exists_removeDocs_comment
        (MarkFamily.hash ‹_› line block).isVisibleGrammar_eq line hp.ends d σ
      refine ⟨η, hη, hedits, fun s r k hs hfree hk _ => ⟨k, hk, ?_⟩⟩
      rw [hdocs s r k hs hfree hk, eraseBlocks, block]

theorem seats_partsAt {g : Grammar} {a u : Text} {s : Shielded} {ps : List Piece}
    (h : Shields g.triple (a ++ ch '\n' :: u) s) (hp : PartsAt g.triple a u ps) :
    Seats s ((literals ps).length + ·) (fun j => ((literals (split g.triple u))[j]?).any isDoc)
      (slots g.triple u) := by
  refine ⟨h.sentinel_mem, h.absent.imp id ?_, ?_⟩
  · intro hfree hm
    apply hfree
    have hu := mem_of_char_mem_slots hm
    simp [hu]
  · intro j _
    rw [h.spans_partsAt hp]

theorem exists_remove_comment {ext m p : Text} {g : Grammar} (hg : grammarOf? ext = some g)
    (hf : MarkFamily g m) (hp : Preamble g m p) (u : Text) : ∃ left, ∀ c s, ch '\n' ∉ c →
      withinSize (p ++ m ++ c ++ ch '\n' :: u) = true →
      shield? g.triple (p ++ m ++ c ++ ch '\n' :: u) = some s → EndsComment g (p ++ m) c u s →
        remove ext (p ++ m ++ c ++ ch '\n' :: u) = left := by
  obtain ⟨η, hη, hedits, hleft⟩ := exists_comment_left hf hp
    (fun j => ((literals (split g.triple u))[j]?).any isDoc) (slots g.triple u)
  obtain ⟨ω, htrim, herase⟩ := exists_eraseLines_fill hf.isVisibleGrammar_eq η
  have hω := htrim.edits.trans hedits
  refine ⟨tidied (p ++ fill (fun j => ((literals (split g.triple u))[j]?).getD []) ω), ?_⟩
  rintro c s hc hsize hs ⟨ps, hparts, hblocks⟩
  have hshields := shields_of_shield? hs
  have hseats := seats_partsAt hshields hparts
  have hfront : (p ++ m).any isQuote = false := by
    rw [List.any_append, hp.quoteless, hf.quoteless]
    rfl
  obtain ⟨k, hk, hrender⟩ := hshields.exists_renderFrom_partsAt hparts hfront hc
  have htext := hshields.text_partsAt hparts
  have hrestore := fun ω => hshields.restore_partsAt (ω := ω) hparts
  generalize ((literals ps).length + ·) = r at hseats htext hrestore
  rw [hrender, List.append_assoc, List.append_assoc, ← List.append_assoc m] at htext
  rw [hrender, htext] at hblocks
  have hfree : s.spans = #[] ∨ s.sentinel ∉ p := by
    refine hshields.absent.imp id ?_
    intro h hm
    apply h
    simp [hm]
  obtain ⟨k', hk', hdeleted⟩ := hleft s r k hseats hfree hk hblocks
  have hdelete : delete g (some s) s.text = fill (s.seat r) (ofText p ++ ω) := by
    rw [delete, htext, hdeleted, eraseLines_comment hf.line_eq hf.isVisible_mark hp.ends hp.markless hk'
      (hη.fill _), herase _ hseats.hides, fill_append, fill_ofText]
  have hrestored : s.restore (fill (s.seat r) (ofText p ++ ω)) =
      fill (fun j => ((literals (split g.triple u))[j]?).getD []) (ofText p ++ ω) := by
    apply hrestore
    · intro h hm
      rcases List.mem_append.mp hm with hm | hm
      · exact h (by simp [char_mem_ofText.mp hm])
      · rcases hω.char_mem _ hm with hm | hm
        · rcases List.mem_cons.mp hm with hm | hm
          · exact h (by simp [Slot.char.inj hm])
          · exact h (by simp [mem_of_char_mem_slots hm])
        · exact sentinel_not_added hshields.sentinel_mem hm
    · rw [holes_append, holes_ofText, List.nil_append]
      exact hω.holes_sublist
  rw [remove_of_shield? hg hf.protects_eq hsize hs, hdelete, hrestored, fill_append, fill_ofText]

theorem remove_inert_to_line_comment {ext m p c₁ c₂ u : Text} {g : Grammar} {s₁ s₂ : Shielded}
    (hg : grammarOf? ext = some g) (hf : MarkFamily g m) (hp : Preamble g m p)
    (hc₁ : ch '\n' ∉ c₁) (hc₂ : ch '\n' ∉ c₂)
    (hsize₁ : withinSize (p ++ m ++ c₁ ++ ch '\n' :: u) = true)
    (hsize₂ : withinSize (p ++ m ++ c₂ ++ ch '\n' :: u) = true)
    (hs₁ : shield? g.triple (p ++ m ++ c₁ ++ ch '\n' :: u) = some s₁)
    (hs₂ : shield? g.triple (p ++ m ++ c₂ ++ ch '\n' :: u) = some s₂)
    (hends₁ : EndsComment g (p ++ m) c₁ u s₁) (hends₂ : EndsComment g (p ++ m) c₂ u s₂) :
    remove ext (p ++ m ++ c₁ ++ ch '\n' :: u) = remove ext (p ++ m ++ c₂ ++ ch '\n' :: u) := by
  obtain ⟨left, hleft⟩ := exists_remove_comment hg hf hp u
  rw [hleft c₁ s₁ hc₁ hsize₁ hs₁ hends₁, hleft c₂ s₂ hc₂ hsize₂ hs₂ hends₂]

theorem remove_inert_to_quotes_in_comment :
    remove "js".toText "x = 1;\n// it's\ny = 'a // b';\n".toText =
      remove "js".toText "x = 1;\n// say \"hi\" /* */\ny = 'a // b';\n".toText := by
  have hp : Preamble slashStar "//".toText "x = 1;\n".toText := by
    have hslash : ch '/' ∉ "x = 1;\n".toText := by decide
    exact ⟨.inr ⟨"x = 1;".toText, rfl⟩, by decide, fun h => hslash (h.subset (by decide)),
      fun _ h => hslash (h.subset (by decide))⟩
  let s₁ : Shielded := {
    text := "x = 1;\n// it\x00STR0END\x00\ny = \x00STR1END\x00;\n".toText
    spans := #["'s".toText, "'a // b'".toText]
    sentinel := '\x00' }
  let s₂ : Shielded := {
    text := "x = 1;\n// say \x00STR0END\x00 /* */\ny = \x00STR1END\x00;\n".toText
    spans := #["\"hi\"".toText, "'a // b'".toText]
    sentinel := '\x00' }
  have hends₁ : EndsComment slashStar ("x = 1;\n".toText ++ "//".toText) " it's".toText
      "y = 'a // b';\n".toText s₁ := by
    refine ⟨"x = 1;\n// it".toText.map .plain ++ [.literal "'s".toText], ⟨by cbv, _, by cbv⟩, ?_⟩
    rintro b ⟨⟩
    constructor <;> (unfold Uncovered; decide)
  have hends₂ : EndsComment slashStar ("x = 1;\n".toText ++ "//".toText) " say \"hi\" /* */".toText
      "y = 'a // b';\n".toText s₂ := by
    refine ⟨"x = 1;\n// say ".toText.map .plain ++ .literal "\"hi\"".toText ::
      " /* */".toText.map .plain, ⟨by cbv, _, by cbv⟩, ?_⟩
    rintro b ⟨⟩
    constructor <;> (unfold Uncovered; decide)
  exact remove_inert_to_line_comment (by decide) .slashes hp (by decide) (by decide) (by cbv) (by cbv)
    (by cbv) (by cbv) hends₁ hends₂

theorem not_inert_to_backtick_in_comment :
    ¬ ∀ (ext m p c₁ c₂ u : Text) (g : Grammar), grammarOf? ext = some g → MarkFamily g m →
      Preamble g m p → ch '\n' ∉ c₁ → ch '\n' ∉ c₂ →
      withinSize (p ++ m ++ c₁ ++ ch '\n' :: u) = true → withinSize (p ++ m ++ c₂ ++ ch '\n' :: u) = true →
      (shield? g.triple (p ++ m ++ c₁ ++ ch '\n' :: u)).isSome →
      (shield? g.triple (p ++ m ++ c₂ ++ ch '\n' :: u)).isSome →
      remove ext (p ++ m ++ c₁ ++ ch '\n' :: u) = remove ext (p ++ m ++ c₂ ++ ch '\n' :: u) := by
  intro h
  have heq := h "js".toText "//".toText [] [ch '\x60'] [] "a\n".toText slashStar (by decide) .slashes
    ⟨.inl rfl, rfl, by decide, by decide⟩ (by decide) (by decide) (by cbv) (by cbv) (by cbv) (by cbv)
  have hswallowed : remove "js".toText "//\x60\na\n".toText = [] := by cbv
  have hkept : remove "js".toText "//\na\n".toText = "\na\n".toText := by cbv
  have : ([] : Text) = "\na\n".toText := hswallowed.symm.trans (heq.trans hkept)
  exact absurd this (by decide)

end CodeCompaction.Comment
