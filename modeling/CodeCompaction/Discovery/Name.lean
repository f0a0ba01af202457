import CodeCompaction.Path.Parts
import CodeCompaction.Text.Case

namespace CodeCompaction.Discovery

open CodeCompaction.Path CodeCompaction.Text

def textExtensions : List String := [
  "txt", "md", "json", "jsonc", "xml", "html", "htm", "css", "scss", "sass", "less",
  "js", "mjs", "cjs", "ts", "mts", "tsx", "jsx", "vue", "svelte", "astro",
  "py", "pyw", "pyx", "rb", "php", "java", "c", "h", "cpp", "hpp", "cc",
  "cs", "go", "rs", "swift", "kt", "kts", "scala", "groovy", "clj", "cljs",
  "ex", "exs", "erl", "hrl", "hs", "elm", "lua", "r", "jl", "pl", "pm",
  "sh", "bash", "zsh", "fish", "ps1", "psm1", "bat", "cmd",
  "sql", "graphql", "gql", "prisma", "proto",
  "yaml", "yml", "toml", "ini", "conf", "env", "cfg",
  "dockerfile", "containerfile", "makefile", "cmake",
  "gitignore", "gitattributes", "npmrc", "nvmrc", "editorconfig",
  "lock", "log", "csv", "tsv", "svg", "xhtml", "dart", "lisp", "el", "scm"]

def textDotFiles : List String := [
  ".gitignore", ".gitattributes", ".npmrc", ".nvmrc",
  ".editorconfig", ".prettierrc", ".eslintrc", ".babelrc",
  ".env", ".env.local", ".env.development", ".env.production"]

def isTextExtension (t : Text) : Bool := textExtensions.any (·.toText == lower t)

def isBareDotFile (name : Text) : Bool :=
  match name with
  | '.' :: c :: cs => !(c :: cs).contains '.'
  | _ => false

def isText (path : Text) : Bool :=
  let name := baseName path
  let ext := (splitExtension name).2
  (!ext.isEmpty && isTextExtension (ext.drop 1)) || isTextExtension name ||
    textDotFiles.any (·.toText == name) || isBareDotFile name

def isDots (part : Text) : Bool := part == [ch '.'] || part == [ch '.', ch '.']

def isHiddenPart (part : Text) : Bool := part.head? == some (ch '.') && !isDots part

def isAnySlash (c : CodePoint) : Bool := c == '/' || c == '\\'

def isHidden (path : Text) : Bool := (pieces isAnySlash path).any isHiddenPart

end CodeCompaction.Discovery
