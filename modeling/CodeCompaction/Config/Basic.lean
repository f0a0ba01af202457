import CodeCompaction.Mode

namespace CodeCompaction.Config

open CodeCompaction.Json

abbrev Draft := List (Text × Value)

structure Settings where
  mode : Mode := .minify
  countTokens : Bool := true
  outputDir : Text := []
  outputSuffix : Text := []
  logLevel : Log.LevelName := .info
  logFile : Text := []
  deriving Repr, DecidableEq

def modeName : Text := "mode".toText

def countTokensName : Text := "count_tokens".toText

def outputDirName : Text := "output_dir".toText

def outputSuffixName : Text := "output_suffix".toText

def logLevelName : Text := "log_level".toText

def logFileName : Text := "log_file".toText

def names : List Text :=
  [modeName, countTokensName, outputDirName, outputSuffixName, logLevelName, logFileName]

def Settings.draft (s : Settings) : Draft := [
  (modeName, .ofString s.mode.tag),
  (countTokensName, .bool s.countTokens),
  (outputDirName, .str s.outputDir),
  (outputSuffixName, .str s.outputSuffix),
  (logLevelName, .ofString s.logLevel.name),
  (logFileName, .str s.logFile)]

theorem names_draft (s : Settings) : s.draft.map Prod.fst = names := rfl

def defaults : Settings := {}

def overDefaults (members : Draft) : Draft :=
  defaults.draft.map (fun (n, v) => (n, (members.lookup n).getD v))

def merge (base overrides : Draft) : Draft :=
  names.foldl (fun d n =>
    match overrides.lookup n with
    | none => d
    | some .null => d
    | some v => setMember n v d) base

end CodeCompaction.Config
