import CodeCompaction.Text.Basic

namespace CodeCompaction.Literal

open CodeCompaction.Text

def quotedEnd (q : CodePoint) : Text → Nat
  | [] => 0
  | '\\' :: _ :: cs => quotedEnd q cs + 2
  | c :: cs => if c == q then 1 else if c == '\n' then 0 else quotedEnd q cs + 1

def startsTriple (q : CodePoint) (t : Text) : Bool := [q, q, q].isPrefixOf t

def tripleEnd (q : CodePoint) : Text → Nat
  | [] => 0
  | '\\' :: _ :: cs => tripleEnd q cs + 2
  | c :: cs => if startsTriple q (c :: cs) then 3 else tripleEnd q cs + 1

def templateEnd : Nat → Text → Nat
  | _, [] => 0
  | 0, '\\' :: _ :: cs => templateEnd 0 cs + 2
  | 0, '$' :: '\x7b' :: cs => templateEnd 1 cs + 2
  | 0, c :: cs => if c == '\x60' then 1 else templateEnd 0 cs + 1
  | d + 1, c :: cs =>
      if c == '\x7b' then templateEnd (d + 2) cs + 1
      else if c == '\x7d' then templateEnd d cs + 1
      else templateEnd (d + 1) cs + 1

theorem quotedEnd_le (q : CodePoint) (t : Text) : quotedEnd q t ≤ t.length := by
  fun_induction quotedEnd q t <;> simp_all

theorem templateEnd_le (d : Nat) (t : Text) : templateEnd d t ≤ t.length := by
  fun_induction templateEnd d t <;> simp_all

theorem startsTriple_length {q : CodePoint} {t : Text} (h : startsTriple q t = true) : 3 ≤ t.length := by
  have := (List.isPrefixOf_iff_prefix.1 h).length_le
  simpa using this

theorem tripleEnd_le (q : CodePoint) (t : Text) : tripleEnd q t ≤ t.length := by
  fun_induction tripleEnd q t with
  | case1 => simp
  | case2 => simp_all
  | case3 c cs _ h => exact startsTriple_length h
  | case4 => simp_all

def bodyLength (triple : Bool) (q : CodePoint) (t : Text) : Nat :=
  if q == '\x60' then templateEnd 0 t
  else if triple && startsTriple q (q :: t) then tripleEnd q (t.drop 2) + 2
  else quotedEnd q t

theorem bodyLength_le (triple : Bool) (q : CodePoint) (t : Text) : bodyLength triple q t ≤ t.length := by
  simp only [bodyLength]
  split
  · exact templateEnd_le 0 t
  · split
    · rename_i h
      have h3 := startsTriple_length (Bool.and_eq_true_iff.1 h).2
      have := tripleEnd_le q (t.drop 2)
      simp at h3 this
      omega
    · exact quotedEnd_le q t

inductive Piece where
  | plain (c : CodePoint)
  | literal (span : Text)
  deriving Repr, DecidableEq

def Piece.text : Piece → Text
  | .plain c => [c]
  | .literal s => s

def Piece.span? : Piece → Option Text
  | .plain _ => none
  | .literal s => some s

def split (triple : Bool) : Text → List Piece
  | [] => []
  | c :: cs =>
      if isQuote c then
        let n := bodyLength triple c cs
        .literal (c :: cs.take n) :: split triple (cs.drop n)
      else .plain c :: split triple cs
termination_by t => t.length
decreasing_by all_goals simp_wf; try omega

theorem flatMap_text_split (triple : Bool) (t : Text) : (split triple t).flatMap Piece.text = t := by
  fun_induction split triple t with
  | case1 => rfl
  | case2 c cs h n ih => simp [Piece.text, ih]
  | case3 c cs h ih => simp [Piece.text, ih]

end CodeCompaction.Literal
