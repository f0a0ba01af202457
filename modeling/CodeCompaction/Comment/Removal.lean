import CodeCompaction.Comment.Doc
import CodeCompaction.Log.Entry
import CodeCompaction.Text.Lines

namespace CodeCompaction

def minSize : Nat := 2

def maxSize : Nat := 500 * 1024

def withinSize (t : Text) : Bool :=
  let n := t.byteLength
  minSize ≤ n && n ≤ maxSize

namespace Comment

open CodeCompaction.Text CodeCompaction.Literal

def eraseBlocks (g : Grammar) (t : Text) : Text :=
  match g.block? with
  | some m => erase m.pattern t
  | none => t

def eraseLines (g : Grammar) (t : Text) : Text :=
  match g.line? with
  | some m => erase m.pattern t
  | none => t

def delete (g : Grammar) (s? : Option Shielded) (t : Text) : Text :=
  eraseLines g (eraseBlocks g (removeDocs g s? t))

def stripPlain (g : Grammar) (t : Text) : Text := tidy (delete g none t)

def stripShielded (g : Grammar) (s : Shielded) : Text := tidy (s.restore (delete g (some s) s.text))

inductive Removal where
  | untouched
  | collided
  | stripped (text : Text)
  deriving Repr, DecidableEq

def removal (ext t : Text) : Removal :=
  if !withinSize t then .untouched
  else match grammarOf? ext with
    | none => .untouched
    | some g =>
        if g.protects then
          match shield? g.triple t with
          | none => .collided
          | some s => .stripped (stripShielded g s)
        else .stripped (stripPlain g t)

def Removal.text (t : Text) : Removal → Text
  | .untouched => t
  | .collided => t
  | .stripped r => r

def logger : String := "compactor4ai.core.processing.comments"

def Removal.entries (ext t : Text) : Removal → List Log.Entry
  | .untouched => []
  | .collided => [{
      level := Log.warning, logger
      message := "Literal shielding unavailable for '".toText ++ ext ++ "': ".toText ++ collisionMessage ++
        ". Leaving input untouched.".toText }]
  | .stripped r => [{
      level := Log.debug, logger
      message := "Comments removed (".toText ++ ext ++ "): ".toText ++ Number.decimal t.length ++
        " -> ".toText ++ Number.decimal r.length ++ " chars".toText }]

def remove (ext t : Text) : Text := (removal ext t).text t

def removeLogged (ext t : Text) : Logged Text :=
  let r := removal ext t
  { value := r.text t, entries := r.entries ext t }

end Comment
end CodeCompaction
