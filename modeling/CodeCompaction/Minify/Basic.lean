import CodeCompaction.Comment.Removal
import CodeCompaction.Json.Parse
import CodeCompaction.Json.Print
import CodeCompaction.Minify.Spacing

namespace CodeCompaction.Minify

open CodeCompaction.Text CodeCompaction.Literal CodeCompaction.Comment

inductive Family where
  | whitespaceSignificant
  | json
  | markup
  | generic
  deriving Repr, DecidableEq

def Family.name : Family → String
  | .whitespaceSignificant => "whitespace-significant"
  | .json => "json"
  | .markup => "markup"
  | .generic => "generic"

def whitespaceSignificantExtensions : List String :=
  ["py", "pyw", "pyx", "yaml", "yml", "coffee", "sass", "pug", "haml"]

def jsonExtensions : List String := ["json", "jsonc"]

def markupExtensions : List String := ["html", "htm", "xml", "svg", "xhtml"]

def lists (names : List String) (key : Text) : Bool := names.any (fun n => n.toText == key)

def familyOf (ext : Text) : Family :=
  let key := Comment.extensionKey ext
  if lists whitespaceSignificantExtensions key then .whitespaceSignificant
  else if lists jsonExtensions key then .json
  else if lists markupExtensions key then .markup
  else .generic

def logger : String := "compactor4ai.core.processing.minifier"

def tryShield (ext t : Text) : Logged (Option Shielded) :=
  match shield? ((grammarOf? ext).any (·.triple)) t with
  | some s => pure (some s)
  | none => do
      Logged.write Log.warning logger
        ("Literal shielding unavailable during minification: ".toText ++ collisionMessage)
      pure none

def generic (ext t : Text) : Logged Text := do
  match ← tryShield ext t with
  | none => pure t
  | some s => pure (s.restore (compactLines s.text))

def jsonComment : Pattern := fun b t => (BlockMark.starred.length? t).or (slashes.pattern b t)

def withoutJsonComments (ext t : Text) : Logged Text := do
  match ← tryShield ext t with
  | none => pure (erase jsonComment t)
  | some s => pure (s.restore (erase jsonComment s.text))

inductive JsonFault where
  | unreadable (reason : Json.ParseError)
  | unprintable
  deriving Repr, DecidableEq

def JsonFault.detail : JsonFault → Text
  | .unreadable .malformed => "malformed text".toText
  | .unreadable (.tooDeep _) => "nesting too deep".toText
  | .unprintable => "a number is out of range".toText

def rewritten (limit : Json.NestingLimit) (t : Text) : Except JsonFault Text :=
  match Json.parse limit false t with
  | .error e => .error (.unreadable e)
  | .ok v => if Json.isFinite v then .ok (Json.compact v) else .error .unprintable

def json (limit : Json.NestingLimit) (ext t : Text) : Logged Text := do
  match rewritten limit (← withoutJsonComments ext t) with
  | .ok out => pure out
  | .error e => do
      Logged.write Log.debug logger
        ("JSON parse failed (".toText ++ e.detail ++ "); falling back to whitespace collapsing.".toText)
      pure (joinWords t)

def compacted (limit : Json.NestingLimit) (ext t : Text) : Family → Logged Text
  | .whitespaceSignificant => pure (keepIndentation t)
  | .json => json limit ext t
  | .markup => pure (compactMarkup t)
  | .generic => generic ext t

def reduction (before after : Nat) : Float := 100 - Number.quotient (after * 100 : Nat) before

def reportMessage (ext : Text) (family : Family) (before after : Nat) : Text :=
  "Minified ".toText ++ ext ++ " [".toText ++ family.name.toText ++ "]: ".toText ++ Number.decimal before ++
    " -> ".toText ++ Number.decimal after ++ " chars (".toText ++
    Number.fixed 1 (reduction before after) ++ "% reduction)".toText

def minifyLogged (limit : Json.NestingLimit) (ext t : Text) : Logged Text :=
  if !withinSize t then pure t
  else do
    let family := familyOf ext
    let out ← compacted limit ext (← removeLogged ext t) family
    Logged.write Log.debug logger (reportMessage ext family t.length out.length)
    pure out

def minify (limit : Json.NestingLimit) (ext t : Text) : Text := (minifyLogged limit ext t).value

theorem minify_eq (limit : Json.NestingLimit) (ext t : Text) : minify limit ext t =
    if withinSize t then (compacted limit ext (remove ext t) (familyOf ext)).value else t := by
  rw [minify, minifyLogged]
  cases withinSize t <;> rfl

end CodeCompaction.Minify
