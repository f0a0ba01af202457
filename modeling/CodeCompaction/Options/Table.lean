import CodeCompaction.Text.Basic

namespace CodeCompaction.Options

inductive Key where
  | help
  | stdinExtension
  | mode
  | noTokens
  | outputDir
  | outputSuffix
  | json
  | quiet
  | useDefaults
  | dumpConfig
  | saveConfig
  | logFile
  | debug
  deriving Repr, DecidableEq

inductive Arity where
  | none
  | one
  | optional
  deriving Repr, DecidableEq

structure Spec where
  key : Key
  flags : List String
  arity : Arity := .none
  invocation : String
  help : List String
  deriving Repr, DecidableEq

def specs : List Spec := [
  { key := .help, flags := ["-h", "--help"], invocation := "-h, --help"
    help := ["show this help message and exit"] },
  { key := .stdinExtension, flags := ["--ext"], arity := .one, invocation := "--ext STDIN_EXTENSION"
    help := ["Extension used to pick the grammar for stdin input", "(default: txt)."] },
  { key := .mode, flags := ["-m", "--mode"], arity := .one, invocation := "-m MODE, --mode MODE"
    help := ["Processing mode: raw, remove-comments, minify. Unknown", "values behave as 'raw'."] },
  { key := .noTokens, flags := ["--no-tokens"], invocation := "--no-tokens"
    help := ["Skip BPE token counting in the summary."] },
  { key := .outputDir, flags := ["-o", "--output-dir"], arity := .one
    invocation := "-o OUTPUT_DIR, --output-dir OUTPUT_DIR"
    help := ["Write processed files under this directory instead of", "stdout."] },
  { key := .outputSuffix, flags := ["--suffix"], arity := .one, invocation := "--suffix OUTPUT_SUFFIX"
    help := ["Marker inserted before the extension of written files", "(e.g. '.min')."] },
  { key := .json, flags := ["--json"], invocation := "--json"
    help := ["Print a machine-readable JSON report."] },
  { key := .quiet, flags := ["-q", "--quiet"], invocation := "-q, --quiet"
    help := ["Do not print per-file progress."] },
  { key := .useDefaults, flags := ["--use-defaults"], invocation := "--use-defaults"
    help := ["Ignore the persisted configuration."] },
  { key := .dumpConfig, flags := ["--dump-config"], invocation := "--dump-config"
    help := ["Print the effective configuration and exit."] },
  { key := .saveConfig, flags := ["--save-config"], invocation := "--save-config"
    help := ["Persist the effective configuration for later runs."] },
  { key := .logFile, flags := ["--log-file"], arity := .optional, invocation := "--log-file [LOG_FILE]"
    help := ["Also write logs to a rotating file (default location", "if no path is given)."] },
  { key := .debug, flags := ["--debug"], invocation := "--debug"
    help := ["Elevate logging verbosity to DEBUG."] }]

def flagTable : List (Text × Spec) := specs.flatMap (fun s => s.flags.map (fun f => (f.toText, s)))

def Spec.name (s : Spec) : String := String.intercalate "/" s.flags

def program : String := "compactor4ai"

def usageLines : List String := [
  "usage: compactor4ai [-h] [--ext STDIN_EXTENSION] [-m MODE] [--no-tokens]",
  "                    [-o OUTPUT_DIR] [--suffix OUTPUT_SUFFIX] [--json] [-q]",
  "                    [--use-defaults] [--dump-config] [--save-config]",
  "                    [--log-file [LOG_FILE]] [--debug]",
  "                    [paths ...]"]

def joinLines (ls : List String) : Text := (ls.map (fun l => l.toText ++ [ch '\n'])).flatten

def usage : Text := joinLines usageLines

def helpColumn : Nat := 24

def column (n : Nat) (l : String) : String := String.ofList (List.replicate n ' ') ++ l

def entryLines (invocation : String) (help : List String) : List String :=
  if invocation.length + 4 ≤ helpColumn then
    match help with
    | [] => [column 2 invocation]
    | l :: ls =>
        column 2 (invocation ++ column (helpColumn - 2 - invocation.length) l) ::
          ls.map (column helpColumn)
  else column 2 invocation :: help.map (column helpColumn)

def help : Text :=
  usage ++ joinLines (
    ["", "Strip comments and minify source files for LLM contexts.", "", "positional arguments:"] ++
    entryLines "paths"
      ["Files or directories to process. Use '-' (or nothing)", "to read stdin."] ++
    ["", "options:"] ++ specs.flatMap (fun s => entryLines s.invocation s.help))

end CodeCompaction.Options
