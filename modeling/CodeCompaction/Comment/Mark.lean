import CodeCompaction.Text.Rewrite

namespace CodeCompaction.Comment

open CodeCompaction.Text

def lineLength (t : Text) : Nat := (t.takeWhile (· != ch '\n')).length

theorem lineLength_append_newline (a u : Text) : lineLength (a ++ ch '\n' :: u) = lineLength a := by
  induction a with
  | nil => rfl
  | cons c a ih =>
      rw [lineLength, lineLength] at ih ⊢
      rw [List.cons_append, List.takeWhile_cons, List.takeWhile_cons]
      split
      · rw [List.length_cons, List.length_cons, ih]
      · rfl

theorem lineLength_of_no_newline {t : Text} (h : ch '\n' ∉ t) : lineLength t = t.length := by
  induction t with
  | nil => rfl
  | cons c t ih =>
      have hc : (c != '\n') = true := bne_iff_ne.mpr (fun heq => h (heq ▸ List.mem_cons_self))
      rw [lineLength, List.takeWhile_cons, if_pos hc]
      exact congrArg (· + 1) (ih (List.not_mem_of_not_mem_cons h))

inductive LineMark where
  | anywhere (openers : List Text)
  | lineStart (openers : List Text)
  deriving Repr, DecidableEq

def opens (openers : List Text) (t : Text) : Bool := openers.any (·.isPrefixOf t)

def LineMark.pattern : LineMark → Pattern
  | .anywhere os, _, t => if opens os t then some (lineLength t) else none
  | .lineStart os, atStart, t =>
      if atStart && opens os (t.dropWhile isInlineBlank) then some (lineLength t) else none

def throughCloser (closer : Text) : Text → Option Nat
  | [] => if closer.isEmpty then some 0 else none
  | c :: cs =>
      if closer.isPrefixOf (c :: cs) then some closer.length
      else (throughCloser closer cs).map (· + 1)

mutual

def starBody : Text → Option Nat
  | [] => none
  | c :: cs => (if c == '*' then starRun cs else starBody cs).map (· + 1)

def starRun : Text → Option Nat
  | [] => none
  | c :: cs =>
      if c == '/' then some 1
      else (if c == '*' then starRun cs else starBody cs).map (· + 1)

end

inductive BlockMark where
  | starred
  | delimited (opener closer : Text)
  | leveled
  | barred (opener : Text) (bar : CodePoint) (closer : Text)
  | either (a b : BlockMark)
  deriving Repr, DecidableEq

def behind (opener t : Text) (body : Text → Option Nat) : Option Nat :=
  if opener.isPrefixOf t then (body (t.drop opener.length)).map (· + opener.length) else none

def leveledBody (t : Text) : Option Nat :=
  let level := t.takeWhile (· == ch '=')
  behind (level ++ [ch '[']) t (throughCloser ([ch ']'] ++ level ++ [ch ']']))

def barredBody (bar : CodePoint) (closer t : Text) : Option Nat :=
  let body := t.takeWhile (· != bar)
  if closer.isPrefixOf (t.drop body.length) then some (body.length + closer.length) else none

def BlockMark.length? : BlockMark → Text → Option Nat
  | .starred, t => behind ['/', '*'] t starBody
  | .delimited opener closer, t => behind opener t (throughCloser closer)
  | .leveled, t => behind ['-', '-', '['] t leveledBody
  | .barred opener bar closer, t => behind opener t (barredBody bar closer)
  | .either a b, t => (a.length? t).or (b.length? t)

def BlockMark.pattern (m : BlockMark) : Pattern := fun _ t => m.length? t

def tripleQuote (q : CodePoint) : Text := [q, q, q]

def docMark : BlockMark :=
  .either (.delimited (tripleQuote '"') (tripleQuote '"'))
    (.delimited (tripleQuote '\'') (tripleQuote '\''))

def isDoc (t : Text) : Bool :=
  [ch '"', '\''].any fun q =>
    6 ≤ t.length && (tripleQuote q).isPrefixOf t && (tripleQuote q).isSuffixOf t

end CodeCompaction.Comment
