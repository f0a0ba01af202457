import CodeCompaction.Config.Basic
import CodeCompaction.Options.Parse
import CodeCompaction.Path.Parts

namespace CodeCompaction

abbrev Options.Argument := Option Text

structure Options where
  paths : List Text := []
  stdinExtension : Options.Argument := some Path.defaultExtension
  mode : Option Options.Argument := none
  noTokens : Bool := false
  outputDir : Option Options.Argument := none
  outputSuffix : Option Options.Argument := none
  json : Bool := false
  quiet : Bool := false
  useDefaults : Bool := false
  dumpConfig : Bool := false
  saveConfig : Bool := false
  logFile : Option Text := none
  debug : Bool := false
  deriving Repr, DecidableEq

namespace Options

open CodeCompaction.Json

def Given.argument : Given → Argument
  | .text t => some t
  | _ => none

def assign (o : Options) (a : Assignment) : Options :=
  match a.key with
  | .help => o
  | .stdinExtension => { o with stdinExtension := a.given.argument }
  | .mode => { o with mode := some a.given.argument }
  | .noTokens => { o with noTokens := true }
  | .outputDir => { o with outputDir := some a.given.argument }
  | .outputSuffix => { o with outputSuffix := some a.given.argument }
  | .json => { o with json := true }
  | .quiet => { o with quiet := true }
  | .useDefaults => { o with useDefaults := true }
  | .dumpConfig => { o with dumpConfig := true }
  | .saveConfig => { o with saveConfig := true }
  | .logFile => { o with logFile := some (a.given.argument.getD []) }
  | .debug => { o with debug := true }

def ofParsed (p : Parsed) : Options := p.assignments.foldl assign { paths := p.paths }

def ofWords (argv : List Text) : Except Exit Options := (parse argv).map ofParsed

def argumentValue : Argument → Value
  | some t => .str t
  | none => .arr []

def entry {α : Type} (name : Text) (f : α → Value) (a : Option α) : Config.Draft :=
  (a.map (fun x => (name, f x))).toList

def asksForDefaultLog (o : Options) : Bool := o.logFile == some []

def logPath (defaultLog : Text) (t : Text) : Text := if t.isEmpty then defaultLog else t

def overrides (o : Options) (defaultLog : Text) : Config.Draft :=
  entry Config.modeName argumentValue o.mode ++
    entry Config.outputDirName argumentValue o.outputDir ++
    entry Config.outputSuffixName argumentValue o.outputSuffix ++
    entry Config.logFileName Value.str (o.logFile.map (logPath defaultLog)) ++
    (if o.noTokens then [(Config.countTokensName, .bool false)] else []) ++
    (if o.debug then [(Config.logLevelName, .ofString Log.LevelName.debug.name)] else [])

end Options
end CodeCompaction
