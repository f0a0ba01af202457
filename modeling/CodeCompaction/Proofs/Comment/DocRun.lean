import CodeCompaction.Comment.Removal
import CodeCompaction.Proofs.Literal.Placeholder
import CodeCompaction.Proofs.Text.Blanks

namespace CodeCompaction.Comment

open CodeCompaction.Text CodeCompaction.Literal

variable {g : Grammar} {s : Shielded}

theorem indentation_append_of_ink {l : Text} (h : isAllBlank l = false) (w : Text) :
    indentation (l ++ w) = indentation l := by
  have hlen : (l.takeWhile isInlineBlank).length ≠ l.length := by
    intro hlen
    have hall : l.takeWhile isInlineBlank = l := (List.takeWhile_prefix _).eq_of_length hlen
    have hblank : isAllBlank l = true := by
      rw [isAllBlank, List.all_eq_true, ← hall]
      exact fun c hc => isBlank_of_isInlineBlank (List.mem_takeWhile_imp hc)
    rw [hblank] at h
    exact Bool.false_ne_true h.symm
  rw [indentation, List.takeWhile_append, if_neg hlen, indentation]

theorem codePart_eq (g : Grammar) (line : Text) : codePart g line = rstrip (eraseLines g line) := by
  unfold codePart eraseLines
  cases g.line? <;> rfl

def docVerdict (s : Shielded) (depth : Nat) (line : Text) (previous following : Option Text) : DocFate :=
  if depth != 0 then .kept
  else match placeholderLine? s.mark line with
    | none => .kept
    | some (indent, i) =>
        if !(s.spans[i]?).any isDoc then .kept
        else if insideExpression previous following then .kept
        else if fillsBlock previous following indent then .replaced indent
        else .dropped

theorem docFate_eq_docVerdict (g : Grammar) (s : Shielded) (kept : List Text) (depth : Nat)
    (line : Text) (rest : List Text) : docFate g s kept depth line rest =
      docVerdict s depth line (firstCode? g kept) (firstCode? g rest) := rfl

theorem docVerdict_cases (s : Shielded) (depth : Nat) (line : Text) (previous following : Option Text) :
    docVerdict s depth line previous following = .kept ∨
      depth = 0 ∧ ∃ indent i, placeholderLine? s.mark line = some (indent, i) ∧
        (s.spans[i]?).any isDoc = true ∧ docVerdict s depth line previous following =
          if fillsBlock previous following indent then .replaced indent else .dropped := by
  by_cases hdepth : depth = 0
  · cases hline : placeholderLine? s.mark line with
    | none => exact .inl (by simp only [docVerdict, hline, ite_self])
    | some x =>
        obtain ⟨indent, i⟩ := x
        cases hdoc : (s.spans[i]?).any isDoc with
        | false => exact .inl (by simp [docVerdict, hdepth, hline, hdoc])
        | true =>
            cases hinside : insideExpression previous following with
            | true => exact .inl (by simp [docVerdict, hdepth, hline, hdoc, hinside])
            | false =>
                exact .inr ⟨hdepth, indent, i, rfl, hdoc, by simp [docVerdict, hdepth, hline, hdoc, hinside]⟩
  · exact .inl (by simp [docVerdict, hdepth])

def codeAfter (g : Grammar) (previous : Option Text) (line : Text) : Option Text :=
  if isAllBlank (codePart g line) then previous else some (codePart g line)

theorem firstCode?_cons (g : Grammar) (l : Text) (ls : List Text) :
    firstCode? g (l :: ls) = codeAfter g (firstCode? g ls) l := rfl

def DocFate.emitted? (line : Text) : DocFate → Option Text
  | .kept => some line
  | .replaced indent => some (indent ++ "pass".toText)
  | .dropped => none

def docRun (g : Grammar) (s : Shielded) : Option Text → Nat → List Text → List Text
  | _, _, [] => []
  | previous, depth, line :: rest =>
      let depth' := bracketDepth depth (codePart g line)
      match (docVerdict s depth line previous (firstCode? g rest)).emitted? line with
      | some l => l :: docRun g s (codeAfter g previous l) depth' rest
      | none => docRun g s previous depth' rest

theorem docRun_cons_of_emitted {previous : Option Text} {depth : Nat} {line l : Text} {rest : List Text}
    (h : (docVerdict s depth line previous (firstCode? g rest)).emitted? line = some l) :
    docRun g s previous depth (line :: rest) =
      l :: docRun g s (codeAfter g previous l) (bracketDepth depth (codePart g line)) rest := by
  rw [docRun, h]

theorem docRun_cons_of_dropped {previous : Option Text} {depth : Nat} {line : Text} {rest : List Text}
    (h : (docVerdict s depth line previous (firstCode? g rest)).emitted? line = none) :
    docRun g s previous depth (line :: rest) =
      docRun g s previous (bracketDepth depth (codePart g line)) rest := by
  rw [docRun, h]

theorem docLines_eq_docRun (g : Grammar) (s : Shielded) (kept : List Text) (depth : Nat)
    (ls : List Text) :
    docLines g s kept depth ls = kept.reverse ++ docRun g s (firstCode? g kept) depth ls := by
  induction ls generalizing kept depth with
  | nil => simp [docLines, docRun]
  | cons line rest ih =>
      rw [docLines, docFate_eq_docVerdict]
      cases h : docVerdict s depth line (firstCode? g kept) (firstCode? g rest) with
      | kept =>
          rw [docRun_cons_of_emitted (l := line) (by rw [h]; rfl), ← firstCode?_cons]
          exact (ih _ _).trans (by simp)
      | replaced indent =>
          rw [docRun_cons_of_emitted (l := indent ++ "pass".toText) (by rw [h]; rfl), ← firstCode?_cons]
          exact (ih _ _).trans (by simp)
      | dropped =>
          rw [docRun_cons_of_dropped (by rw [h]; rfl)]
          exact ih _ _

theorem docVerdict_of_no_placeholder {line : Text} (h : placeholderLine? s.mark line = none)
    (depth : Nat) (previous following : Option Text) :
    docVerdict s depth line previous following = .kept := by
  simp only [docVerdict, h, ite_self]

theorem docVerdict_of_no_spans (h : s.spans = #[]) (depth : Nat) (line : Text)
    (previous following : Option Text) : docVerdict s depth line previous following = .kept := by
  simp only [docVerdict, h]
  split
  · rfl
  · split
    · rfl
    · rfl

theorem docRun_of_no_spans (h : s.spans = #[]) (previous : Option Text) (depth : Nat)
    (ls : List Text) : docRun g s previous depth ls = ls := by
  induction ls generalizing previous depth with
  | nil => rfl
  | cons line rest ih =>
      rw [docRun_cons_of_emitted (l := line) (by rw [docVerdict_of_no_spans h]; rfl), ih]

theorem placeholderLine?_eq {mark line rest indent : Text} (hindent : indentation line = indent)
    (hline : line = indent ++ rest) : placeholderLine? mark line =
      (readPlaceholder? mark rest).bind (fun x =>
        if (rest.drop x.2).all isInlineBlank then some (indent, x.1) else none) := by
  simp only [placeholderLine?, hindent, Option.bind_eq_bind]
  rw [hline]
  simp only [List.drop_left, ← List.drop_drop]

theorem readPlaceholder?_of_absent {c : CodePoint} {t : Text} (h : c ∉ t) :
    readPlaceholder? [c] t = none := by
  cases t with
  | nil => rfl
  | cons d t =>
      refine readPlaceholder?_of_ne ?_ t
      rintro rfl
      exact h (List.mem_cons_self ..)

theorem placeholderLine?_of_absent {c : CodePoint} {line : Text} (h : c ∉ line) :
    placeholderLine? [c] line = none := by
  have hsplit : line = indentation line ++ line.dropWhile isInlineBlank :=
    List.takeWhile_append_dropWhile.symm
  rw [placeholderLine?_eq rfl hsplit, readPlaceholder?_of_absent, Option.bind_none]
  intro hc
  exact h (hsplit ▸ List.mem_append_right _ hc)

theorem placeholderLine?_cons_of_ne {c d : CodePoint} (hb : isInlineBlank d = false) (hd : d ≠ c)
    (t : Text) : placeholderLine? [c] (d :: t) = none := by
  have hindent : indentation (d :: t) = [] := by simp [indentation, hb]
  rw [placeholderLine?_eq hindent rfl, readPlaceholder?_of_ne hd, Option.bind_none]

theorem exists_docRun_append (g : Grammar) (ls : List Text) (previous : Option Text) (depth : Nat) :
    ∃ previous' depth', ∀ s : Shielded, (s.spans = #[] ∨ ∀ l ∈ ls, s.sentinel ∉ l) →
      ∀ rest, docRun g s previous depth (ls ++ rest) = ls ++ docRun g s previous' depth' rest := by
  induction ls generalizing previous depth with
  | nil => exact ⟨previous, depth, fun _ _ _ => rfl⟩
  | cons l ls ih =>
      obtain ⟨previous', depth', hrun⟩ :=
        ih (codeAfter g previous l) (bracketDepth depth (codePart g l))
      refine ⟨previous', depth', fun s hs rest => ?_⟩
      have hkept : docVerdict s depth l previous (firstCode? g (ls ++ rest)) = .kept := by
        rcases hs with hempty | hfree
        · exact docVerdict_of_no_spans hempty ..
        · exact docVerdict_of_no_placeholder
            (placeholderLine?_of_absent (hfree l (List.mem_cons_self ..))) ..
      rw [List.cons_append, docRun_cons_of_emitted (by rw [hkept]; rfl), List.cons_append,
        hrun s (hs.imp id (fun hfree l' hl' => hfree l' (List.mem_cons_of_mem _ hl')))]

theorem docRun_cons_of_no_code {line : Text} (hcode : codePart g line = [])
    (hline : placeholderLine? s.mark line = none) (previous : Option Text) (depth : Nat)
    (rest : List Text) :
    docRun g s previous depth (line :: rest) = line :: docRun g s previous depth rest := by
  have hafter : codeAfter g previous line = previous := by
    rw [codeAfter, hcode]
    rfl
  rw [docRun_cons_of_emitted (by rw [docVerdict_of_no_placeholder hline]; rfl), hafter, hcode]
  rfl

theorem removeDocs_eq_docRun (hg : g.doc = true) (s : Shielded) (t : Text) :
    removeDocs g (some s) t = unlines (docRun g s none 0 (lines t)) := by
  simp only [removeDocs, hg, Bool.not_true, Bool.false_eq_true, if_false]
  split
  · rename_i h
    rw [docRun_of_no_spans (by simpa using h), unlines_lines]
  · rw [docLines_eq_docRun]
    rfl

theorem removeDocs_of_not_doc (hg : g.doc = false) (s? : Option Shielded) (t : Text) :
    removeDocs g s? t = t := by
  simp [removeDocs, hg]

end CodeCompaction.Comment
