import CodeCompaction.Comment.Grammar
import CodeCompaction.Literal.Shield

namespace CodeCompaction.Comment

open CodeCompaction.Text CodeCompaction.Literal

def codePart (g : Grammar) (line : Text) : Text :=
  match g.line? with
  | some m => rstrip (erase m.pattern line)
  | none => rstrip line

def isOpenBracket (c : CodePoint) : Bool := c == '(' || c == '[' || c == '\x7b'

def isCloseBracket (c : CodePoint) : Bool := c == ')' || c == ']' || c == '\x7d'

def bracketDepth (depth : Nat) (code : Text) : Nat :=
  code.foldl (fun d c => if isOpenBracket c then d + 1 else if isCloseBracket c then d - 1 else d) depth

def firstCode? (g : Grammar) : List Text → Option Text
  | [] => none
  | l :: ls =>
      let code := codePart g l
      if isAllBlank code then firstCode? g ls else some code

def continuesAfter (c : CodePoint) : Bool := "([\x7b,\\=+-*/%|&".toText.contains c

def continuesBefore (c : CodePoint) : Bool := ")]\x7d,.+%".toText.contains c

def insideExpression (previous following : Option Text) : Bool :=
  (previous.bind List.getLast?).any continuesAfter ||
    (following.bind (fun f => (lstrip f).head?)).any continuesBefore

def indentation (t : Text) : Text := t.takeWhile isInlineBlank

def fillsBlock (previous following : Option Text) (indent : Text) : Bool :=
  (previous.bind List.getLast?) == some (ch ':') &&
    match following with
    | none => true
    | some f => (indentation f).length < indent.length

def placeholderLine? (mark line : Text) : Option (Text × Nat) := do
  let indent := indentation line
  let (i, n) ← readPlaceholder? mark (line.drop indent.length)
  if (line.drop (indent.length + n)).all isInlineBlank then some (indent, i) else none

inductive DocFate where
  | kept
  | replaced (indent : Text)
  | dropped
  deriving Repr, DecidableEq

/-- What becomes of a line, given the code line kept last, the lines that follow and the open brackets. -/
def docFate (g : Grammar) (s : Shielded) (keptRev : List Text) (depth : Nat) (line : Text)
    (rest : List Text) : DocFate :=
  if depth != 0 then .kept
  else match placeholderLine? s.mark line with
    | none => .kept
    | some (indent, i) =>
        if !(s.spans[i]?).any isDoc then .kept
        else
          let previous := firstCode? g keptRev
          let following := firstCode? g rest
          if insideExpression previous following then .kept
          else if fillsBlock previous following indent then .replaced indent
          else .dropped

def docLines (g : Grammar) (s : Shielded) : List Text → Nat → List Text → List Text
  | keptRev, _, [] => keptRev.reverse
  | keptRev, depth, line :: rest =>
      let depth' := bracketDepth depth (codePart g line)
      match docFate g s keptRev depth line rest with
      | .kept => docLines g s (line :: keptRev) depth' rest
      | .replaced indent => docLines g s ((indent ++ "pass".toText) :: keptRev) depth' rest
      | .dropped => docLines g s keptRev depth' rest

def removeDocs (g : Grammar) (s? : Option Shielded) (t : Text) : Text :=
  if !g.doc then t
  else match s? with
    | none => erase docMark.pattern t
    | some s => if s.spans.isEmpty then t else unlines (docLines g s [] 0 (lines t))

end CodeCompaction.Comment
