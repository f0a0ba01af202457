import CodeCompaction.Proofs.Comment.Fates

namespace CodeCompaction.Comment

open CodeCompaction.Text CodeCompaction.Literal

def isCodeLine (l : Text) : Bool := !isAllBlank (uncommented l)

def OpensBlock (l : Text) : Prop := (rstrip (uncommented l)).getLast? = some (ch ':')

instance (l : Text) : Decidable (OpensBlock l) :=
  inferInstanceAs (Decidable ((rstrip (uncommented l)).getLast? = some (ch ':')))

section Lines

variable {l : Text} {g : Grammar}

theorem rstrip_isPrefix (t : Text) : rstrip t <+: t := List.rdropWhile_prefix isBlank t

theorem indentation_of_isPrefix {a : Text} (h : a <+: l) (hink : isAllBlank a = false) :
    indentation l = indentation a := by
  obtain ⟨w, rfl⟩ := h
  exact indentation_append_of_ink hink w

theorem code_isPrefix (l : Text) : rstrip (uncommented l) <+: l :=
  (rstrip_isPrefix _).trans (List.takeWhile_prefix _)

theorem indentation_code (h : isCodeLine l = true) :
    indentation (rstrip (uncommented l)) = indentation l := by
  refine (indentation_of_isPrefix (code_isPrefix l) ?_).symm
  rw [isAllBlank_rstrip]
  simpa [isCodeLine] using h

theorem OpensBlock.isCodeLine (h : OpensBlock l) : isCodeLine l = true := by
  rw [Comment.isCodeLine, ← isAllBlank_rstrip, Bool.not_eq_true', isAllBlank, List.all_eq_false]
  exact ⟨':', List.mem_of_getLast? h, by decide⟩

theorem codeAfter_of_hash (hline : g.line? = some hash) (hl : ch '\n' ∉ l) (previous : Option Text) :
    codeAfter g previous l = if isCodeLine l then some (rstrip (uncommented l)) else previous := by
  rw [codeAfter, codePart_of_hash hline hl, isAllBlank_rstrip, isCodeLine]
  cases isAllBlank (uncommented l) <;> rfl

theorem firstCode?_of_hash (hline : g.line? = some hash) {ls : List Text} (hls : ∀ l ∈ ls, ch '\n' ∉ l) :
    firstCode? g ls = (ls.find? isCodeLine).map (fun l => rstrip (uncommented l)) := by
  induction ls with
  | nil => rfl
  | cons l ls ih =>
      rw [firstCode?_cons, codeAfter_of_hash hline (hls l (List.mem_cons_self ..)),
        ih (fun m hm => hls m (List.mem_cons_of_mem _ hm)), List.find?_cons]
      cases isCodeLine l <;> rfl

end Lines

namespace DocLine

variable {s : Shielded} {l indent x : Text}

theorem uncommented_eq (h : DocLine s l indent x) (hs : s.sentinel ∈ sentinels) : uncommented l = l := by
  have hhidden : ∀ c ∈ placeholderAlphabet, (c != '#') = true := eq_of_hidden (by decide)
  refine List.takeWhile_eq_self_iff.mpr (fun c hc => ?_)
  rcases h.mem_cases hs hc with hblank | hmem
  · rw [bne_iff_ne]
    rintro rfl
    exact absurd hblank (by decide)
  · exact hhidden c hmem

theorem isCodeLine (h : DocLine s l indent x) (hs : s.sentinel ∈ sentinels) : isCodeLine l = true := by
  rw [Comment.isCodeLine, h.uncommented_eq hs, Bool.not_eq_true', isAllBlank, List.all_eq_false]
  exact ⟨s.sentinel, h.sentinel_mem, by rw [sentinels_not_blank _ hs]; exact Bool.false_ne_true⟩

theorem not_opensBlock (h : DocLine s l indent x) (hs : s.sentinel ∈ sentinels) : ¬ OpensBlock l := by
  intro hopens
  have hhidden : ∀ c ∈ placeholderAlphabet, (c != ':') = true := eq_of_hidden (by decide)
  have hmem : ch ':' ∈ l := (code_isPrefix l).subset (List.mem_of_getLast? hopens)
  rcases h.mem_cases hs hmem with hblank | hmem
  · exact absurd hblank (by decide)
  · exact absurd (hhidden _ hmem) (by decide)

end DocLine

section Pass

variable {indent : Text}

theorem isCodeLine_pass (h : indent.all isInlineBlank = true) :
    isCodeLine (indent ++ "pass".toText) = true := by
  have hcode : ∀ c ∈ indent ++ "pass".toText, (c != '#') = true := by
    intro c hc
    rw [bne_iff_ne]
    rintro rfl
    rcases List.mem_append.mp hc with hc | hc
    · exact absurd (List.all_eq_true.mp h _ hc) (by decide)
    · exact absurd hc (by decide)
  rw [isCodeLine, uncommented, List.takeWhile_eq_self_iff.mpr hcode, isAllBlank_append]
  simp [isAllBlank, isBlank, inRanges, blankRanges]

theorem indentation_pass (h : indent.all isInlineBlank = true) :
    indentation (indent ++ "pass".toText) = indent := by
  rw [indentation, List.takeWhile_append_of_pos (List.all_eq_true.mp h)]
  exact List.append_nil indent

end Pass

theorem exists_following_of_not_fillsBlock {code indent : Text} {following : Option Text}
    (hopens : code.getLast? = some (ch ':')) (h : ¬ fillsBlock (some code) following indent = true) :
    ∃ f, following = some f ∧ indent.length ≤ (indentation f).length := by
  cases following with
  | none => exact absurd (by simp [fillsBlock, hopens]) h
  | some f => exact ⟨f, rfl, by simpa [fillsBlock, hopens] using h⟩

section Run

variable {ext t : Text} {g : Grammar} {triple : Bool} {s : Shielded}

theorem exists_emitted_code (hs : Shields triple t s) (hline : g.line? = some hash) {ls : List Text}
    (hls : ∀ l ∈ ls, l ∈ lines s.text) {keptRev : List Text} {code : Text}
    (hprevious : firstCode? g keptRev = some code) (hopens : code.getLast? = some (ch ':')) (depth : Nat)
    {n : Text} (hn : ls.find? isCodeLine = some n) :
    ∃ n', (emitted ls (docFates g s keptRev depth ls)).find? isCodeLine = some n' ∧
      (indentation n).length ≤ (indentation n').length := by
  induction ls generalizing keptRev depth n with
  | nil => simp at hn
  | cons l ls ih =>
      have hl := hls l (List.mem_cons_self ..)
      have hrest : ∀ m ∈ ls, m ∈ lines s.text := fun m hm => hls m (List.mem_cons_of_mem _ hm)
      rw [docFates, emitted_cons]
      rcases docFate_cases (g := g) hs hl keptRev depth ls with hkept | ⟨-, indent, x, hx, hverdict⟩
      · simp only [hkept, DocFate.emitted?, Option.toList_some, List.singleton_append]
        cases hcode : isCodeLine l with
        | true =>
            rw [List.find?_cons_of_pos hcode] at hn ⊢
            exact ⟨l, rfl, by rw [Option.some.inj hn]⟩
        | false =>
            have hkeep : firstCode? g (l :: keptRev) = some code := by
              rw [firstCode?_cons, codeAfter_of_hash hline (newline_not_mem_of_mem_lines hl), hcode,
                if_neg Bool.false_ne_true, hprevious]
            rw [List.find?_cons_of_neg (by simp [hcode])] at hn ⊢
            exact ih hrest hkeep _ hn
      · obtain rfl : l = n := by
          rw [List.find?_cons_of_pos (hx.isCodeLine hs.sentinel_mem)] at hn
          exact Option.some.inj hn
        rw [hx.indentation_eq hs.sentinel_mem, hverdict]
        split
        · simp only [DocFate.emitted?, Option.toList_some, List.singleton_append]
          rw [List.find?_cons_of_pos (isCodeLine_pass hx.indent_blank)]
          exact ⟨_, rfl, by rw [indentation_pass hx.indent_blank]⟩
        · rename_i hfills
          simp only [DocFate.emitted?, Option.toList_none, List.nil_append]
          rw [hprevious] at hfills
          obtain ⟨f, hf, hindent⟩ := exists_following_of_not_fillsBlock hopens hfills
          rw [firstCode?_of_hash hline (fun m hm => newline_not_mem_of_mem_lines (hrest m hm))] at hf
          obtain ⟨m, hm, rfl⟩ := Option.map_eq_some_iff.mp hf
          obtain ⟨n', hn', hle⟩ := ih hrest hprevious (bracketDepth depth (codePart g l)) hm
          rw [indentation_code (List.find?_some hm)] at hindent
          exact ⟨n', hn', hindent.trans hle⟩

theorem newline_not_mem_emitted (hs : Shields triple t s) {ls : List Text}
    (hls : ∀ l ∈ ls, l ∈ lines s.text) (keptRev : List Text) (depth : Nat) :
    ∀ l ∈ emitted ls (docFates g s keptRev depth ls), ch '\n' ∉ l := by
  induction ls generalizing keptRev depth with
  | nil => simp [docFates, emitted]
  | cons l ls ih =>
      have hl := hls l (List.mem_cons_self ..)
      have hrest := ih (fun m hm => hls m (List.mem_cons_of_mem _ hm))
      rw [docFates, emitted_cons]
      intro m hm
      rcases List.mem_append.mp hm with hm | hm
      · rcases docFate_cases (g := g) hs hl keptRev depth ls with hkept | ⟨-, indent, x, hx, hverdict⟩
        · rw [hkept] at hm
          obtain rfl : m = l := by simpa [DocFate.emitted?] using hm
          exact newline_not_mem_of_mem_lines hl
        · rw [hverdict] at hm
          split at hm
          · obtain rfl : m = indent ++ "pass".toText := by simpa [DocFate.emitted?] using hm
            intro hnewline
            rcases List.mem_append.mp hnewline with hnewline | hnewline
            · exact absurd (List.all_eq_true.mp hx.indent_blank _ hnewline) (by decide)
            · exact absurd hnewline (by decide)
          · simp [DocFate.emitted?] at hm
      · exact hrest _ _ m hm

theorem removeDocs_leaves_block_code (hg : grammarOf? ext = some g)
    (hkey : extensionKey ext = "py".toText ∨ extensionKey ext = "pyw".toText)
    (hs : shield? triple t = some s) {i : Nat} {h n : Text} (hh : (lines s.text)[i]? = some h)
    (hopens : OpensBlock h) (hn : ((lines s.text).drop (i + 1)).find? isCodeLine = some n) :
    (lineFates g s)[i]? = some .kept ∧
    lines (removeDocs g (some s) s.text) =
      emitted ((lines s.text).take i) ((lineFates g s).take i) ++
        h :: emitted ((lines s.text).drop (i + 1)) ((lineFates g s).drop (i + 1)) ∧
    ∃ n', (emitted ((lines s.text).drop (i + 1)) ((lineFates g s).drop (i + 1))).find? isCodeLine = some n' ∧
      (indentation n).length ≤ (indentation n').length := by
  have hshields := shields_of_shield? hs
  obtain ⟨hdoc, hline⟩ := doc_and_hash_of_script _ (mem_grammars_of_grammarOf? hg) hkey
  have hmem : h ∈ lines s.text := List.mem_of_getElem? hh
  obtain ⟨keptRev, fate, hfate, hi, depth, hrest⟩ := exists_docFates_getElem? (g := g) (s := s) hh [] 0
  obtain rfl : fate = .kept := by
    rw [hfate]
    refine (docFate_cases hshields hmem keptRev _ _).resolve_right ?_
    rintro ⟨-, indent, x, hx, -⟩
    exact hx.not_opensBlock hshields.sentinel_mem hopens
  have hout := emitted_of_getElem? (length_docFates g s [] 0 (lines s.text)) hh hi
  refine ⟨hi, ?_, ?_⟩
  · have hnewline := newline_not_mem_emitted (g := g) hshields (fun _ hl => hl) [] 0
    rw [removeDocs_eq_emitted hdoc, lines_unlines (by simp [hout, DocFate.emitted?]) hnewline, hout]
    rfl
  · have hprevious : firstCode? g (h :: keptRev) = some (rstrip (uncommented h)) := by
      rw [firstCode?_cons, codeAfter_of_hash hline (newline_not_mem_of_mem_lines hmem),
        if_pos hopens.isCodeLine]
    rw [lineFates, hrest]
    exact exists_emitted_code hshields hline (fun _ hl => List.mem_of_mem_drop hl) hprevious hopens _ hn

theorem removeDocs_leaves_block_code_of_docstrings :
    ∃ g s, shield? true "if a: # b\n\n  \"\"\"c\"\"\"\n  # d:\n    '''e'''\nf\n".toText = some s ∧
      ∃ n', (emitted ((lines s.text).drop 1) ((lineFates g s).drop 1)).find? isCodeLine = some n' ∧
        2 ≤ (indentation n').length := by
  let g : Grammar := { hashOnly with doc := true, triple := true }
  let s : Shielded := {
    text := "if a: # b\n\n  \x00STR0END\x00\n  # d:\n    \x00STR1END\x00\nf\n".toText
    spans := #["\"\"\"c\"\"\"".toText, "'''e'''".toText]
    sentinel := '\x00' }
  have hg : grammarOf? "py".toText = some g := by decide
  have hs : shield? true "if a: # b\n\n  \"\"\"c\"\"\"\n  # d:\n    '''e'''\nf\n".toText = some s := by cbv
  have hh : (lines s.text)[0]? = some "if a: # b".toText := by decide +kernel
  have hopens : OpensBlock "if a: # b".toText := by decide +kernel
  have hn : ((lines s.text).drop 1).find? isCodeLine = some "  \x00STR0END\x00".toText := by decide +kernel
  exact ⟨g, s, hs, (removeDocs_leaves_block_code hg (.inl (by decide)) hs hh hopens hn).2.2⟩

end Run

end CodeCompaction.Comment
