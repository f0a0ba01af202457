import CodeCompaction.Text.Basic

namespace CodeCompaction.Text

def unifyBreaks : Text → Text
  | [] => []
  | '\r' :: '\n' :: cs => '\n' :: unifyBreaks cs
  | c :: cs => (if c == '\r' then '\n' else c) :: unifyBreaks cs

def atLineEnd : Text → Bool
  | [] => true
  | c :: _ => c == '\n'

def dropTrailing (t : Text) : Text :=
  t.foldr (fun c rest => if isInlineBlank c && atLineEnd rest then rest else c :: rest) []

@[simp] theorem dropTrailing_nil : dropTrailing [] = [] := rfl

theorem dropTrailing_cons (c : CodePoint) (t : Text) :
    dropTrailing (c :: t) =
      if isInlineBlank c && atLineEnd (dropTrailing t) then dropTrailing t
      else c :: dropTrailing t := rfl

def afterBlankLine : Text → Option Text
  | [] => none
  | c :: cs => if c == '\n' then some cs else if isInlineBlank c then afterBlankLine cs else none

theorem afterBlankLine_length {t r : Text} (h : afterBlankLine t = some r) : r.length < t.length := by
  induction t with
  | nil => simp [afterBlankLine] at h
  | cons c cs ih =>
      simp only [afterBlankLine] at h
      split at h
      · injection h with h; subst h; simp
      · split at h
        · have := ih h; simp only [List.length_cons]; omega
        · simp at h

def skipBlankLines (t : Text) : Nat × Text :=
  match _h : afterBlankLine t with
  | none => (0, t)
  | some r =>
      let skipped := skipBlankLines r
      (skipped.1 + 1, skipped.2)
termination_by t.length
decreasing_by exact afterBlankLine_length _h

theorem skipBlankLines_length (t : Text) : (skipBlankLines t).2.length ≤ t.length := by
  fun_induction skipBlankLines t with
  | case1 t h => exact Nat.le_refl _
  | case2 t r h skipped ih =>
      have := afterBlankLine_length h
      have hs : skipped.2.length ≤ r.length := ih
      exact Nat.le_trans hs (by omega)

def collapseBlankLines : Text → Text
  | [] => []
  | c :: cs =>
      if c == '\n' then
        let skipped := skipBlankLines cs
        if 2 ≤ skipped.1 then '\n' :: '\n' :: collapseBlankLines skipped.2
        else c :: collapseBlankLines cs
      else c :: collapseBlankLines cs
termination_by t => t.length
decreasing_by
  all_goals simp_wf
  have := skipBlankLines_length cs
  omega

def tidy (t : Text) : Text := dropTrailing (collapseBlankLines t)

end CodeCompaction.Text
