import CodeCompaction.Text.Lines
import CodeCompaction.Text.Rewrite

namespace CodeCompaction.Minify

open CodeCompaction.Text

def keepIndentation (t : Text) : Text := strip (collapseBlankLines (dropTrailing t))

def startsLine : Text → Bool
  | [] => false
  | c :: _ => c == '\n'

def joinBreaks : Text → Text
  | [] => []
  | c :: cs => if c == '\n' && startsLine cs then joinBreaks cs else c :: joinBreaks cs

def indentToSpace : Substitution := fun atStart t =>
  if atStart then some ((t.takeWhile isInlineBlank).length, [' ']) else none

def shortenIndents (t : Text) : Text := rewrite indentToSpace t

def compactLines (t : Text) : Text := strip (shortenIndents (joinBreaks (dropTrailing t)))

def joinWords (t : Text) : Text := unwords (words t)

def betweenTags : Substitution := fun _ t =>
  match t with
  | '>' :: cs =>
      let n := (cs.takeWhile isBlank).length
      if n != 0 && (cs.drop n).head? == some (ch '<') then some (n + 2, ['>', '<']) else none
  | _ => none

def compactMarkup (t : Text) : Text := joinWords (rewrite betweenTags t)

end CodeCompaction.Minify
