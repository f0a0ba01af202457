import CodeCompaction.Proofs.Comment.Fates

namespace CodeCompaction.Comment

open CodeCompaction.Text CodeCompaction.Literal

def opened (code : Text) : Nat := code.countP isOpenBracket

def closed (code : Text) : Nat := code.countP isCloseBracket

def codeOf (ls : List Text) : Text := ls.flatMap uncommented

section Depth

variable {g : Grammar} {depth : Nat}

theorem not_isCloseBracket_of_isOpenBracket {c : CodePoint} (h : isOpenBracket c = true) :
    isCloseBracket c = false := by
  simp only [isOpenBracket, Bool.or_eq_true, beq_iff_eq] at h
  rcases h with (rfl | rfl) | rfl <;> decide

theorem not_isBracket_of_isBlank {c : CodePoint} (h : isBlank c = true) :
    isOpenBracket c = false ∧ isCloseBracket c = false := by
  constructor
  · rw [Bool.eq_false_iff]
    intro hopen
    simp only [isOpenBracket, Bool.or_eq_true, beq_iff_eq] at hopen
    rcases hopen with (rfl | rfl) | rfl <;> exact absurd h (by decide)
  · rw [Bool.eq_false_iff]
    intro hclose
    simp only [isCloseBracket, Bool.or_eq_true, beq_iff_eq] at hclose
    rcases hclose with (rfl | rfl) | rfl <;> exact absurd h (by decide)

theorem opened_cons (c : CodePoint) (code : Text) :
    opened (c :: code) = opened code + if isOpenBracket c then 1 else 0 := List.countP_cons

theorem closed_cons (c : CodePoint) (code : Text) :
    closed (c :: code) = closed code + if isCloseBracket c then 1 else 0 := List.countP_cons

theorem bracketDepth_add_closed (depth : Nat) (code : Text)
    (h : ∀ p, p <+: code → closed p ≤ depth + opened p) :
    bracketDepth depth code + closed code = depth + opened code := by
  induction code generalizing depth with
  | nil => rfl
  | cons c code ih =>
      have hfront (p : Text) (hp : p <+: code) : closed (c :: p) ≤ depth + opened (c :: p) :=
        h (c :: p) ((List.prefix_cons_inj c).mpr hp)
      rw [bracketDepth_cons]
      cases hopen : isOpenBracket c with
      | true =>
          have hclose := not_isCloseBracket_of_isOpenBracket hopen
          have hstep : bracketDepth depth [c] = depth + 1 := by simp [bracketDepth, hopen]
          simp only [opened_cons, closed_cons, hopen, hclose, if_true, Bool.false_eq_true,
            if_false] at hfront ⊢
          have hrest := ih (depth + 1) (fun p hp => by have := hfront p hp; omega)
          rw [hstep]
          omega
      | false =>
          cases hclose : isCloseBracket c with
          | true =>
              have hstep : bracketDepth depth [c] = depth - 1 := by simp [bracketDepth, hopen, hclose]
              simp only [opened_cons, closed_cons, hopen, hclose, if_true, Bool.false_eq_true,
                if_false] at hfront ⊢
              have hpos : 0 + 1 ≤ depth + (0 + 0) := hfront [] (List.nil_prefix ..)
              have hrest := ih (depth - 1) (fun p hp => by have := hfront p hp; omega)
              rw [hstep]
              omega
          | false =>
              have hstep : bracketDepth depth [c] = depth := by simp [bracketDepth, hopen, hclose]
              simp only [opened_cons, closed_cons, hopen, hclose, Bool.false_eq_true, if_false] at hfront ⊢
              rw [hstep]
              exact ih depth hfront

theorem bracketDepth_rstrip (depth : Nat) (code : Text) :
    bracketDepth depth (rstrip code) = bracketDepth depth code := by
  have htail : ∀ c ∈ code.rtakeWhile isBlank, isOpenBracket c = false ∧ isCloseBracket c = false :=
    fun c hc => not_isBracket_of_isBlank (List.mem_rtakeWhile_imp hc)
  conv_rhs => rw [← List.rdropWhile_append_rtakeWhile (p := isBlank) (l := code), bracketDepth_append,
    bracketDepth_of_no_bracket htail]
  rfl

theorem bracketDepth_codePart (hline : g.line? = some hash) {ls : List Text} (hls : ∀ l ∈ ls, ch '\n' ∉ l) :
    bracketDepth depth (ls.flatMap (codePart g)) = bracketDepth depth (codeOf ls) := by
  induction ls generalizing depth with
  | nil => rfl
  | cons l ls ih =>
      rw [List.flatMap_cons, codeOf, List.flatMap_cons, bracketDepth_append, bracketDepth_append,
        codePart_of_hash hline (hls l (List.mem_cons_self ..)), bracketDepth_rstrip,
        ih (fun m hm => hls m (List.mem_cons_of_mem _ hm)), codeOf]

end Depth

section Statements

variable {ext t : Text} {g : Grammar} {triple : Bool} {s : Shielded}

theorem lineFates_cases (hs : Shields triple t s) {i : Nat} {l : Text} (hl : (lines s.text)[i]? = some l) :
    (lineFates g s)[i]? = some .kept ∨
      bracketDepth 0 (((lines s.text).take i).flatMap (codePart g)) = 0 ∧
        ∃ indent x, DocLine s l indent x ∧
          ((lineFates g s)[i]? = some .dropped ∨ (lineFates g s)[i]? = some (.replaced indent)) := by
  obtain ⟨keptRev, fate, rfl, hfate, -⟩ := exists_docFates_getElem? (g := g) (s := s) hl [] 0
  rw [lineFates, hfate]
  rcases docFate_cases (g := g) hs (List.mem_of_getElem? hl) keptRev
      (bracketDepth 0 (((lines s.text).take i).flatMap (codePart g))) ((lines s.text).drop (i + 1)) with
    hkept | ⟨hdepth, indent, x, hx, hverdict⟩
  · exact .inl (congrArg some hkept)
  · refine .inr ⟨hdepth, indent, x, hx, ?_⟩
    rw [hverdict]
    split
    · exact .inr rfl
    · exact .inl rfl

theorem removeDocs_changes_statements_only (hg : grammarOf? ext = some g)
    (hkey : extensionKey ext = "py".toText ∨ extensionKey ext = "pyw".toText)
    (hs : shield? triple t = some s) :
    (lineFates g s).length = (lines s.text).length ∧
    removeDocs g (some s) s.text = unlines (emitted (lines s.text) (lineFates g s)) ∧
    (∀ (i : Nat) l, (lines s.text)[i]? = some l → (lineFates g s)[i]? = some .kept ∨
      ∃ indent x, DocLine s l indent x ∧
        ((lineFates g s)[i]? = some .dropped ∨ (lineFates g s)[i]? = some (.replaced indent))) ∧
    ((∀ p, p <+: codeOf (lines s.text) → closed p ≤ opened p) → ∀ i < (lines s.text).length,
      closed (codeOf ((lines s.text).take i)) < opened (codeOf ((lines s.text).take i)) →
        (lineFates g s)[i]? = some .kept) := by
  have hshields := shields_of_shield? hs
  obtain ⟨hdoc, hline⟩ := doc_and_hash_of_script _ (mem_grammars_of_grammarOf? hg) hkey
  refine ⟨length_docFates g s [] 0 _, removeDocs_eq_emitted hdoc s s.text, fun i l hl => ?_,
    fun hbalanced i hi hopen => ?_⟩
  · exact (lineFates_cases hshields hl).imp id (fun ⟨_, hchanged⟩ => hchanged)
  · have htake : ∀ l ∈ (lines s.text).take i, ch '\n' ∉ l :=
      fun l hl => newline_not_mem_of_mem_lines (List.mem_of_mem_take hl)
    have hprefix : codeOf ((lines s.text).take i) <+: codeOf (lines s.text) := by
      conv_rhs => rw [← List.take_append_drop i (lines s.text)]
      rw [codeOf, codeOf, List.flatMap_append]
      exact List.prefix_append ..
    have hdepth := bracketDepth_add_closed 0 (codeOf ((lines s.text).take i))
      (fun p hp => by simpa using hbalanced p (hp.trans hprefix))
    refine (lineFates_cases hshields (List.getElem?_eq_getElem hi)).resolve_right ?_
    rintro ⟨hclosed, -⟩
    rw [bracketDepth_codePart hline htake] at hclosed
    omega

theorem removeDocs_changes_statements_only_around_argument :
    ∃ g s, shield? true "def f(a):\n  '''doc'''\n  g(\n  '''arg'''\n  ) # )\n".toText = some s ∧
      removeDocs g (some s) s.text = unlines (emitted (lines s.text) (lineFates g s)) ∧
      (∃ indent x, DocLine s "  \x00STR0END\x00".toText indent x) ∧
      (lineFates g s)[1]? = some .dropped ∧ (lineFates g s)[3]? = some .kept := by
  let g : Grammar := { hashOnly with doc := true, triple := true }
  let s : Shielded := {
    text := "def f(a):\n  \x00STR0END\x00\n  g(\n  \x00STR1END\x00\n  ) # )\n".toText
    spans := #["'''doc'''".toText, "'''arg'''".toText]
    sentinel := '\x00' }
  have hg : grammarOf? "py".toText = some g := by decide
  have hs : shield? true "def f(a):\n  '''doc'''\n  g(\n  '''arg'''\n  ) # )\n".toText = some s := by cbv
  obtain ⟨-, hout, hchanged, hkept⟩ := removeDocs_changes_statements_only hg (.inl (by decide)) hs
  have hdropped : (lineFates g s)[1]? = some .dropped := by decide +kernel
  have hbalanced : ∀ p, p <+: codeOf (lines s.text) → closed p ≤ opened p := by
    have hinits : ∀ p ∈ (codeOf (lines s.text)).inits, closed p ≤ opened p := by decide +kernel
    exact fun p hp => hinits p ((List.mem_inits p _).mpr hp)
  obtain ⟨indent, x, hx, -⟩ := (hchanged 1 _ (by cbv)).resolve_left (by rw [hdropped]; simp)
  have hlt : 3 < (lines s.text).length := by decide +kernel
  have hopen : closed (codeOf ((lines s.text).take 3)) < opened (codeOf ((lines s.text).take 3)) := by
    decide +kernel
  exact ⟨g, s, hs, hout, ⟨indent, x, hx⟩, hdropped, hkept hbalanced 3 hlt hopen⟩

end Statements

end CodeCompaction.Comment
