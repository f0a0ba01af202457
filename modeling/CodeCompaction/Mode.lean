import CodeCompaction.Minify.Basic

namespace CodeCompaction

inductive Mode where
  | raw
  | removeComments
  | minify
  deriving Repr, DecidableEq

namespace Mode

open CodeCompaction.Text

def tag : Mode → String
  | .raw => "raw"
  | .removeComments => "remove-comments"
  | .minify => "minify"

def all : List Mode := [.raw, .removeComments, .minify]

def ofExactTag? (t : Text) : Option Mode := all.find? (fun m => m.tag.toText == t)

def ofTag (t : Text) : Mode := (ofExactTag? (lower (strip t))).getD .raw

def ofValue (v : Json.Value) : Mode := ofTag (v.text?.getD [])

def run (limit : Json.NestingLimit) (m : Mode) (ext t : Text) : Logged Text :=
  match m with
  | .raw => pure t
  | .removeComments => Comment.removeLogged ext t
  | .minify => Minify.minifyLogged limit ext t

def apply (limit : Json.NestingLimit) (m : Mode) (ext t : Text) : Text := (m.run limit ext t).value

def runOptional (limit : Json.NestingLimit) (m : Mode) (ext : Text) : Option Text → Logged (Option Text)
  | some t => do pure (some (← m.run limit ext t))
  | none => pure (if m = .raw then none else some [])

end Mode
end CodeCompaction
