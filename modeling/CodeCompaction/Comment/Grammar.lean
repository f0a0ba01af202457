import CodeCompaction.Comment.Mark
import CodeCompaction.Text.Case

namespace CodeCompaction.Comment

open CodeCompaction.Text

structure Grammar where
  line? : Option LineMark := none
  block? : Option BlockMark := none
  doc : Bool := false
  protects : Bool := false
  triple : Bool := false
  deriving Repr, DecidableEq

def hash : LineMark := .anywhere ["#".toText]

def slashes : LineMark := .anywhere ["//".toText]

def dashes : LineMark := .anywhere ["--".toText]

def semicolon : LineMark := .anywhere [";".toText]

def markupComment : BlockMark := .delimited "<!--".toText "-->".toText

def bracesComment : BlockMark := .delimited "\x7b-".toText "-\x7d".toText

def slashStar : Grammar := { line? := some slashes, block? := some .starred, protects := true }

def hashOnly : Grammar := { line? := some hash, protects := true }

def families : List (List String × Grammar) := [
  (["js", "mjs", "cjs", "ts", "mts", "tsx", "jsx"], slashStar),
  (["c", "h", "cpp", "hpp", "cc", "cs", "java", "go", "rs"], slashStar),
  (["swift", "kt", "kts", "dart", "scala", "groovy"], { slashStar with triple := true }),
  (["py", "pyw"], { hashOnly with doc := true, triple := true }),
  (["pyx"], { hashOnly with triple := true }),
  (["rb"], { hashOnly with block? := some (.barred "=begin".toText '=' "=end".toText) }),
  (["sh", "bash", "zsh", "fish", "r", "yaml", "yml", "toml", "conf"], hashOnly),
  (["ini"], { line? := some (.anywhere [";".toText, "#".toText]) }),
  (["pl", "pm"], hashOnly),
  (["html", "htm", "xml", "svg", "xhtml"], { block? := some markupComment }),
  (["vue", "svelte"], { slashStar with block? := some (.either .starred markupComment) }),
  (["css"], { block? := some .starred }),
  (["scss", "less"], slashStar),
  (["sass"], { line? := some slashes, protects := true }),
  (["sql"], { line? := some dashes, block? := some .starred, protects := true }),
  (["lua"], { line? := some dashes, block? := some .leveled, protects := true }),
  (["hs"], { line? := some dashes, block? := some bracesComment }),
  (["php"],
    { slashStar with line? := some (.anywhere ["//".toText, "#".toText]) }),
  (["clj", "cljs", "lisp", "el", "scm"], { line? := some semicolon }),
  (["ps1", "psm1"],
    { line? := some hash, block? := some (.barred "<#".toText '#' "#>".toText) }),
  (["bat", "cmd"], { line? := some (.lineStart ["REM".toText, "rem".toText, "::".toText]) }),
  (["jsonc"], slashStar)]

def grammars : List (Text × Grammar) :=
  families.flatMap (fun (exts, g) => exts.map (fun e => (e.toText, g)))

def extensions : List Text := grammars.map Prod.fst

def extensionKey (ext : Text) : Text :=
  match strip ext with
  | '.' :: cs => lower cs
  | t => lower t

def grammarOf? (ext : Text) : Option Grammar := grammars.lookup (extensionKey ext)

end CodeCompaction.Comment
