import CodeCompaction.App.Results
import CodeCompaction.Config.Check
import CodeCompaction.Config.Store

namespace CodeCompaction.App

open CodeCompaction.FileTree CodeCompaction.Report

def startSession (w : World) : Session :=
  { log := { tree := w.tree, current := w.current, time := w.time } }

def World.askDataDir (w : World) (s : Session) : Session :=
  s.withTree (Config.withDataDir s.tree w.env w.current)

def World.defaultLog (w : World) : Text :=
  Path.join (Path.join (Config.dataDir w.env w.current) "logs".toText) "compactor4ai.log".toText

def configureLog (s : Session) (c : Log.Settings) : Session × Option Failure :=
  let out := s.log.configuring c true
  ({ s with log := out.1 }, out.2)

def bootstrap (w : World) (o : Options) : Session :=
  (configureLog (startSession w) { level := if o.debug then Log.debug else Log.info }).1.emit
    [note Log.debug "CLI execution initiated. Resolving configuration hierarchy...".toText]

def baseDraft (w : World) (o : Options) (s : Session) : Session × Except Failure Config.Draft :=
  if o.useDefaults then (s, .ok Config.defaults.draft)
  else
    let (t, path) := Config.resolve s.tree w.env w.current []
    match Config.load w.limit t w.current path with
    | .error e => (s.withTree t, .error e)
    | .ok d => ((s.withTree t).emit d.entries, .ok d.value)

def effective (w : World) (o : Options) (base : Config.Draft) : Config.Checked Config.Settings :=
  Config.checkDraft (Config.merge base (o.overrides w.defaultLog))

def constraintEntries (warnings : List Text) : List Log.Entry :=
  warnings.map fun m => note Log.warning ("Configuration Constraint: ".toText ++ m)

def logSettings (c : Config.Settings) : Log.Settings := { level := c.logLevel.level, logFile := c.logFile }

def settle (w : World) (o : Options) : Session × Except Failure Config.Settings :=
  match baseDraft w o (bootstrap w o) with
  | (s, .error e) => (s, .error e)
  | (s, .ok base) =>
      let s := if o.asksForDefaultLog then w.askDataDir s else s
      let checked := effective w o base
      let s := s.emit (constraintEntries checked.warnings)
      match configureLog s (logSettings checked.value) with
      | (s, some e) => (s, .error e)
      | (s, none) => (s, .ok checked.value)

def reportSaved (s : Session) (path : Text) (saved : Config.Saved) : Session × Except Failure Bool :=
  match saved.raised? with
  | some e => (s, .error e)
  | none =>
      let s := s.emit (saved.entries path)
      if saved.ok then (s.emit [note Log.info "Configuration saved.".toText], .ok true)
      else (s.complain "ERROR: Could not save configuration.\n".toText, .ok false)

def save (w : World) (c : Config.Settings) (s : Session) : Session × Except Failure Bool :=
  let (t, path) := Config.resolve s.tree w.env w.current []
  let saved := Config.saveFile t w.current path c.draft
  reportSaved (s.withTree saved.tree) path saved

def dumped (c : Config.Settings) : Text := Json.indented 2 (.obj c.draft) ++ [ch '\n']

def pathsOf (o : Options) : List Text := if o.paths.isEmpty then [stdinMark] else o.paths

def missingPaths (w : World) (t : Tree) (ps : List Text) : List Text :=
  ps.filter fun p => p != stdinMark && !t.contains (seenFrom w.current p)

def missingMessage (p : Text) : Text := "Input path does not exist: ".toText ++ p

def reportMissing (s : Session) (p : Text) : Session :=
  (s.emit [note Log.error (missingMessage p)]).complain ("ERROR: ".toText ++ missingMessage p ++ [ch '\n'])

def interruption : Text := "Operation interrupted by user.".toText

def interrupted (s : Session) : Finish :=
  ((s.emit [note Log.warning interruption]).complain (interruption ++ [ch '\n'])).finish 130

def batchTrace (e : Batch.RunError) : Text :=
  let outer : Failure :=
    { kind := "compactor4ai.domain.processing_models." ++ e.kind, message := e.message }
  let inner := match e.cause? with
    | some c => traceHeading ++ c.line ++
        "\n\nThe above exception was the direct cause of the following exception:\n\n".toText
    | none => []
  inner ++ traceHeading ++ outer.line

def batchFailed (s : Session) (e : Batch.RunError) : Finish :=
  let message := "Processing failed: ".toText ++ e.message ++ ch '\n' :: batchTrace e
  ((s.emit [note Log.critical message]).complain ("ERROR: ".toText ++ e.message ++ [ch '\n'])).finish 1

def showsProgress (o : Options) : Bool := !(o.quiet || o.json)

def countTokens (w : World) (is : List Item) (summary : Summary) :
    List Log.Entry × Except Failure Summary :=
  let service : Tokens.Service := { preferences := Tokens.preferredNames }
  let before := service.total w.vocabularies (is.map (·.input.record.content))
  let after := before.service.total w.vocabularies (is.map Item.content)
  let name := after.service.name w.vocabularies
  let unavailable := fun (e : Tokens.TokenError) =>
    note Log.warning ("Token counting unavailable: ".toText ++ e.failure.message)
  let ended := fun (es : List Log.Entry) (e : Tokens.TokenError) =>
    match e with
    | .raised f => (es, (.error f : Except Failure Summary))
    | .noVocabulary _ => (es ++ [unavailable e], .ok summary)
  match before.result with
  | .error e => ended before.entries e
  | .ok n =>
      match after.result with
      | .error e => ended (before.entries ++ after.entries) e
      | .ok m =>
          let es := before.entries ++ after.entries ++ name.entries
          match name.result with
          | .error e => ended es e
          | .ok t => (es, .ok { summary with tokensIn := some n, tokensOut := some m, tokenizer := some t })

def render (w : World) (c : Config.Settings) (o : Options) (s : Session) (summary : Summary) :
    Session × Option Failure :=
  if o.json then s.print w [Json.indented 2 summary.value ++ [ch '\n']]
  else if o.quiet then (s, none)
  else if c.outputDir.isEmpty then (s.complain summary.text, none)
  else s.print w summary.pieces

def conclude (w : World) (o : Options) (c : Config.Settings) (s : Session) (is : List Item) : Finish :=
  let out := emitResults w c (!o.json) s is
  match out.raised? with
  | some e => fatal out.session e
  | none =>
      let summary := summaryOf c out.reports
      let exit := if summary.ok then 0 else 1
      if c.countTokens then
        match countTokens w is summary with
        | (es, .error e) => fatal (out.session.emit es) e
        | (es, .ok counted) => ended exit (render w c o (out.session.emit es) counted)
      else ended exit (render w c o out.session summary)

def runBatch (w : World) (o : Options) (c : Config.Settings) (s : Session) (inputs : List Input) : Finish :=
  let listener? : Option Batch.Listener := if showsProgress o then some (fun _ => none) else none
  let answer := Batch.answer .blocking c.mode (w.transform c.mode) listener? (inputs.map Input.record)
  let s := (s.emit answer.entries).complain (answer.events.flatMap Batch.Progress.line)
  match answer.result with
  | .error e => batchFailed s e
  | .ok results => conclude w o c s (itemsOf inputs results)

def noInputs : Text := "ERROR: No text files found in the given paths.\n".toText

def processPaths (w : World) (o : Options) (c : Config.Settings) (s : Session) : Finish :=
  let paths := pathsOf o
  match missingPaths w s.tree paths with
  | [] =>
      let found := collect w s.tree o.stdinExtension false paths
      let s := s.emit found.entries
      match found.stop? with
      | some .interrupted => interrupted s
      | some (.failed e) => fatal s e
      | none =>
          if found.inputs.isEmpty then (s.complain noInputs).finish 2
          else runBatch w o c s found.inputs
  | missing => (missing.foldl reportMissing s).finish 2

def afterSettings (w : World) (o : Options) (c : Config.Settings) (s : Session) : Finish :=
  match if o.saveConfig then save w c s else (s, .ok true) with
  | (s, .error e) => fatal s e
  | (s, .ok false) => s.finish 1
  | (s, .ok true) =>
      if o.dumpConfig then ended 0 (s.print w [dumped c]) else processPaths w o c s

def runWith (w : World) (o : Options) : Finish :=
  match settle w o with
  | (s, .error e) => fatal s e
  | (s, .ok c) => afterSettings w o c s

def leave (w : World) : Options.Exit → Finish
  | .help => ended 0 ((startSession w).print w [Options.help])
  | .error message =>
      ((startSession w).complain
        (Options.usage ++ Options.program.toText ++ ": error: ".toText ++ message ++ [ch '\n'])).finish 2

def run (w : World) (argv : List Text) : Finish :=
  match Options.ofWords argv with
  | .error e => leave w e
  | .ok o => runWith w o

end CodeCompaction.App
