import CodeCompaction.Proofs.Comment.Deletion

namespace CodeCompaction.Comment

open CodeCompaction.Text CodeCompaction.Literal

def docFates (g : Grammar) (s : Shielded) : List Text → Nat → List Text → List DocFate
  | _, _, [] => []
  | keptRev, depth, line :: rest =>
      let fate := docFate g s keptRev depth line rest
      fate :: docFates g s ((fate.emitted? line).toList ++ keptRev) (bracketDepth depth (codePart g line))
        rest

def emitted (ls : List Text) (fates : List DocFate) : List Text :=
  (ls.zip fates).filterMap (fun x => x.2.emitted? x.1)

section Run

variable {g : Grammar} {s : Shielded}

theorem emitted_cons (l : Text) (ls : List Text) (f : DocFate) (fs : List DocFate) :
    emitted (l :: ls) (f :: fs) = (f.emitted? l).toList ++ emitted ls fs := by
  rw [emitted, List.zip_cons_cons, List.filterMap_cons]
  cases f.emitted? l <;> rfl

theorem emitted_append {ls : List Text} {fs : List DocFate} (h : ls.length = fs.length) (ls' : List Text)
    (fs' : List DocFate) : emitted (ls ++ ls') (fs ++ fs') = emitted ls fs ++ emitted ls' fs' := by
  rw [emitted, List.zip_append h, List.filterMap_append]
  rfl

theorem emitted_of_getElem? {ls : List Text} {fs : List DocFate} (hlength : fs.length = ls.length) {i : Nat}
    {l : Text} {f : DocFate} (hl : ls[i]? = some l) (hf : fs[i]? = some f) : emitted ls fs =
      emitted (ls.take i) (fs.take i) ++
        ((f.emitted? l).toList ++ emitted (ls.drop (i + 1)) (fs.drop (i + 1))) := by
  obtain ⟨hi, rfl⟩ := List.getElem?_eq_some_iff.mp hl
  obtain ⟨hi', rfl⟩ := List.getElem?_eq_some_iff.mp hf
  have htake : (ls.take i).length = (fs.take i).length := by
    rw [List.length_take, List.length_take, hlength]
  conv_lhs => rw [← List.take_append_drop i ls, ← List.take_append_drop i fs, emitted_append htake,
    List.drop_eq_getElem_cons hi, List.drop_eq_getElem_cons hi', emitted_cons]

theorem length_docFates (g : Grammar) (s : Shielded) (keptRev : List Text) (depth : Nat) (ls : List Text) :
    (docFates g s keptRev depth ls).length = ls.length := by
  induction ls generalizing keptRev depth with
  | nil => rfl
  | cons l ls ih => rw [docFates, List.length_cons, ih, List.length_cons]

theorem docRun_eq_emitted (g : Grammar) (s : Shielded) (keptRev : List Text) (depth : Nat)
    (ls : List Text) : docRun g s (firstCode? g keptRev) depth ls =
      emitted ls (docFates g s keptRev depth ls) := by
  induction ls generalizing keptRev depth with
  | nil => rfl
  | cons l ls ih =>
      rw [docFates, emitted_cons, docFate_eq_docVerdict]
      cases hout : (docVerdict s depth l (firstCode? g keptRev) (firstCode? g ls)).emitted? l with
      | none =>
          rw [docRun_cons_of_dropped hout, ih]
          rfl
      | some m =>
          rw [docRun_cons_of_emitted hout, ← firstCode?_cons, ih]
          rfl

theorem removeDocs_eq_emitted (hdoc : g.doc = true) (s : Shielded) (t : Text) :
    removeDocs g (some s) t = unlines (emitted (lines t) (docFates g s [] 0 (lines t))) := by
  rw [removeDocs_eq_docRun hdoc, ← docRun_eq_emitted]
  rfl

theorem exists_drop_docFates (keptRev : List Text) (depth i : Nat) (ls : List Text) :
    ∃ keptRev', (docFates g s keptRev depth ls).drop i =
      docFates g s keptRev' (bracketDepth depth ((ls.take i).flatMap (codePart g))) (ls.drop i) := by
  induction i generalizing keptRev depth ls with
  | zero => exact ⟨keptRev, rfl⟩
  | succ i ih =>
      cases ls with
      | nil => exact ⟨keptRev, rfl⟩
      | cons l ls =>
          rw [docFates, List.drop_succ_cons, List.take_succ_cons, List.flatMap_cons, bracketDepth_append]
          exact ih _ _ ls

theorem exists_docFates_getElem? {ls : List Text} {i : Nat} {l : Text} (hl : ls[i]? = some l)
    (keptRev : List Text) (depth : Nat) : ∃ keptRev' fate,
      fate = docFate g s keptRev' (bracketDepth depth ((ls.take i).flatMap (codePart g))) l
        (ls.drop (i + 1)) ∧
      (docFates g s keptRev depth ls)[i]? = some fate ∧
      ∃ depth', (docFates g s keptRev depth ls).drop (i + 1) =
        docFates g s ((fate.emitted? l).toList ++ keptRev') depth' (ls.drop (i + 1)) := by
  obtain ⟨hi, rfl⟩ := List.getElem?_eq_some_iff.mp hl
  obtain ⟨keptRev', hdrop⟩ := exists_drop_docFates (g := g) (s := s) keptRev depth i ls
  rw [List.drop_eq_getElem_cons hi, docFates] at hdrop
  refine ⟨keptRev', _, rfl, ?_, ?_⟩
  · rw [← List.head?_drop, hdrop, List.head?_cons]
  · rw [← List.tail_drop, hdrop, List.tail_cons]
    exact ⟨_, rfl⟩

def lineFates (g : Grammar) (s : Shielded) : List DocFate := docFates g s [] 0 (lines s.text)

end Run

structure DocLine (s : Shielded) (l indent x : Text) : Prop where
  line_eq : ∃ j τ, l = indent ++ placeholder s.mark j ++ τ ∧ s.spans[j]? = some x ∧
    τ.all isInlineBlank = true
  indent_blank : indent.all isInlineBlank = true
  length_le : 6 ≤ x.length
  quotes : ∃ q ∈ [ch '"', '\''], tripleQuote q <+: x ∧ tripleQuote q <:+ x

theorem quotes_of_isDoc {x : Text} (h : isDoc x = true) :
    6 ≤ x.length ∧ ∃ q ∈ [ch '"', '\''], tripleQuote q <+: x ∧ tripleQuote q <:+ x := by
  obtain ⟨q, hq, hx⟩ := List.any_eq_true.mp h
  simp only [Bool.and_eq_true, decide_eq_true_eq, List.isPrefixOf_iff_prefix,
    List.isSuffixOf_iff_suffix] at hx
  exact ⟨hx.1.1, q, hq, hx.1.2, hx.2⟩

section Shielded

variable {g : Grammar} {triple : Bool} {t l : Text} {s : Shielded}

theorem exists_docLine (hs : Shields triple t s) (hl : l ∈ lines s.text) {indent : Text} {i : Nat}
    (hline : placeholderLine? s.mark l = some (indent, i)) (hdoc : (s.spans[i]?).any isDoc = true) :
    ∃ x, DocLine s l indent x := by
  have hseats := seats_of_shields hs
  have hcut : lines s.text = (rows (slots triple t)).map (fill (s.seat id)) := by
    rw [hs.text_eq]
    exact lines_fill hseats.hides _
  obtain ⟨ρ, hρ, rfl⟩ := List.mem_map.mp (hcut ▸ hl)
  obtain ⟨j, ⟨τ, rfl, hindent, hτ⟩, hi, -⟩ := exists_holeLine_of_placeholderLine?
    (hseats.mono (fun x hx => exists_mem_of_mem_rows hρ hx)) hline hdoc
  obtain rfl : i = j := hi
  cases hspan : s.spans[i]? with
  | none => simp [hspan] at hdoc
  | some x =>
      rw [hspan, Option.any_some] at hdoc
      obtain ⟨hlength, hquotes⟩ := quotes_of_isDoc hdoc
      refine ⟨x, ⟨i, τ, ?_, hspan, hτ⟩, hindent, hlength, hquotes⟩
      rw [fill_append, fill_ofText, fill_hole, fill_ofText, ← List.append_assoc]
      rfl

theorem docFate_cases (hs : Shields triple t s) (hl : l ∈ lines s.text) (keptRev : List Text) (depth : Nat)
    (rest : List Text) : docFate g s keptRev depth l rest = .kept ∨
      depth = 0 ∧ ∃ indent x, DocLine s l indent x ∧ docFate g s keptRev depth l rest =
        if fillsBlock (firstCode? g keptRev) (firstCode? g rest) indent then .replaced indent
        else .dropped := by
  rw [docFate_eq_docVerdict]
  refine (docVerdict_cases s depth l (firstCode? g keptRev) (firstCode? g rest)).imp id ?_
  rintro ⟨hdepth, indent, i, hline, hdoc, hverdict⟩
  obtain ⟨x, hx⟩ := exists_docLine hs hl hline hdoc
  exact ⟨hdepth, indent, x, hx, hverdict⟩

end Shielded

def uncommented (l : Text) : Text := l.takeWhile (· != '#')

section Code

variable {ext l indent x : Text} {g : Grammar} {s : Shielded}

theorem doc_and_hash_of_script : ∀ p ∈ grammars, p.1 = "py".toText ∨ p.1 = "pyw".toText →
    p.2.doc = true ∧ p.2.line? = some hash := by
  decide +kernel

theorem eraseLines_of_hash (hline : g.line? = some hash) (hl : ch '\n' ∉ l) :
    eraseLines g l = uncommented l := by
  have hflagless : (LineMark.anywhere ["#".toText]).pattern.Flagless := fun _ _ => rfl
  simp only [eraseLines, hline, hash]
  induction l with
  | nil => rfl
  | cons c l ih =>
      have hrest := List.not_mem_of_not_mem_cons hl
      by_cases hc : c = '#'
      · have hlength := lineLength_of_no_newline hl
        have hmatch : (LineMark.anywhere ["#".toText]).pattern true (c :: l ++ []) =
            some (c :: l).length := by
          rw [List.append_nil, ← hlength, hc]
          rfl
        have hall := erase_append_of_match hflagless (List.cons_ne_nil c l) hmatch
        rw [List.append_nil] at hall
        rw [hall, uncommented, List.takeWhile_cons_of_neg (by simp [hc])]
        rfl
      · have hnone : (LineMark.anywhere ["#".toText]).pattern true (c :: l) = none := by
          simp [LineMark.pattern, opens, List.isPrefixOf, Ne.symm hc]
        rw [erase_cons_of_none hflagless hnone, ih hrest, uncommented, uncommented,
          List.takeWhile_cons_of_pos (by simpa using hc)]

theorem codePart_of_hash (hline : g.line? = some hash) (hl : ch '\n' ∉ l) :
    codePart g l = rstrip (uncommented l) := by
  rw [codePart_eq, eraseLines_of_hash hline hl]

namespace DocLine

theorem mem_cases (h : DocLine s l indent x) (hs : s.sentinel ∈ sentinels) {c : CodePoint} (hc : c ∈ l) :
    isInlineBlank c = true ∨ c ∈ placeholderAlphabet := by
  obtain ⟨j, τ, rfl, -, hτ⟩ := h.line_eq
  rcases List.mem_append.mp hc with hc | hc
  · rcases List.mem_append.mp hc with hc | hc
    · exact .inl (List.all_eq_true.mp h.indent_blank c hc)
    · exact .inr ((s.hides_seat hs id j).2 c hc)
  · exact .inl (List.all_eq_true.mp hτ c hc)

theorem sentinel_mem (h : DocLine s l indent x) : s.sentinel ∈ l := by
  obtain ⟨j, τ, rfl, -, -⟩ := h.line_eq
  simp [placeholder, enclosed, Shielded.mark]

theorem indentation_eq (h : DocLine s l indent x) (hs : s.sentinel ∈ sentinels) :
    indentation l = indent := by
  obtain ⟨j, τ, rfl, -, -⟩ := h.line_eq
  have hmark := not_isInlineBlank_of_not_isBlank (sentinels_not_blank _ hs)
  have hcut : placeholder s.mark j ++ τ = s.sentinel :: ((placeholder s.mark j).tail ++ τ) := rfl
  rw [List.append_assoc, hcut, indentation,
    List.takeWhile_append_of_pos (List.all_eq_true.mp h.indent_blank),
    List.takeWhile_cons_of_neg (by rw [hmark]; exact Bool.false_ne_true), List.append_nil]

end DocLine

end Code

end CodeCompaction.Comment
