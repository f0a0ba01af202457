import CodeCompaction.Log.Entry
import CodeCompaction.Log.Sink

namespace CodeCompaction.Log

open CodeCompaction.FileTree CodeCompaction.Path

structure Settings where
  level : Level := info
  console : Bool := true
  logFile : Text := []
  maxBytes : Int := 1024 * 1024
  backups : Int := 2
  consoleTemplate : Text := Log.consoleTemplate
  fileTemplate : Text := Log.fileTemplate
  deriving Repr, DecidableEq

structure Sinks where
  console? : Option ConsoleSink := none
  file? : Option FileSink := none
  deriving Repr, DecidableEq

def Sinks.isEmpty (s : Sinks) : Bool := s.console?.isNone && s.file?.isNone

structure Listener where
  number : Nat
  sinks : Sinks
  deriving Repr, DecidableEq

inductive Handler where
  | ours (listener : Nat)
  | foreign (owner : Nat)
  deriving Repr, DecidableEq

def Handler.isOurs : Handler → Bool
  | .ours _ => true
  | .foreign _ => false

structure State where
  level : Level := warning
  handlers : List Handler := []
  configured : Bool := false
  listener? : Option Listener := none
  running : List Listener := []
  started : Nat := 0
  deriving Repr, DecidableEq

def State.shutdown (s : State) : State :=
  { s with
    handlers := s.handlers.filter (!·.isOurs)
    configured := false
    listener? := none
    running := s.running.filter (fun l => s.listener? != some l) }

def State.install (s : State) (sinks : Sinks) : State :=
  if sinks.isEmpty then s
  else
    let l : Listener := { number := s.started, sinks }
    { s with
      handlers := s.handlers ++ [.ours l.number]
      configured := true
      listener? := some l
      running := l :: s.running
      started := s.started + 1 }

def State.reset (s : State) (level : Level) (sinks : Sinks) : State :=
  ({ s with level := level }).shutdown.install sinks

def State.attach (s : State) (owner : Nat) : State :=
  if s.handlers.contains (.foreign owner) then s
  else { s with handlers := s.handlers ++ [.foreign owner] }

def State.detach (s : State) (owner : Nat) : State :=
  { s with handlers := s.handlers.erase (.foreign owner) }

structure Session where
  state : State := {}
  tree : Tree
  current : Text
  time : Text
  console : List Text := []
  stderr : Text := []

def fileSink (c : Settings) (path : Text) : FileSink :=
  { level := c.level, template := c.fileTemplate, path, maxBytes := c.maxBytes
    backups := c.backups.toNat }

def openFile (t : Tree) (current : Text) (c : Settings) : Tree × Except (Fault × Text) FileSink :=
  let path := absolute current c.logFile
  let made := t.makeDirs (dirName path)
  match made.fault? with
  | some e => (made.tree, .error e)
  | none =>
      match made.tree.openForMore path with
      | .ok (_, t') => (t', .ok (fileSink c path))
      | .error f => (made.tree, .error (f, path))

def cannotOpen (logFile reason : Text) : Text :=
  "WARNING: Cannot open log file '".toText ++ logFile ++ "': ".toText ++ reason ++ [ch '\n']

def consoleSink? (c : Settings) : Option ConsoleSink :=
  if c.console then some { level := c.level, template := c.consoleTemplate } else none

namespace Session

def configuringAnew (s : Session) (c : Settings) : Session × Option Failure :=
  if c.logFile.isEmpty then
    ({ s with state := s.state.reset c.level { console? := consoleSink? c } }, none)
  else
    match openFile s.tree s.current c with
    | (tree, .ok f) =>
        ({ s with tree, state := s.state.reset c.level { console? := consoleSink? c, file? := some f } }, none)
    | (tree, .error (f, path)) =>
        match f.raised? with
        | some e => ({ s with tree, state := s.state.reset c.level {} }, some e)
        | none =>
            ({ s with
              tree
              state := s.state.reset c.level { console? := consoleSink? c }
              stderr := s.stderr ++ cannotOpen c.logFile (f.message path) }, none)

def configuring (s : Session) (c : Settings) (force : Bool) : Session × Option Failure :=
  if s.state.configured && !force then (s, none) else s.configuringAnew c

def configure (s : Session) (c : Settings) (force : Bool) : Session := (s.configuring c force).1

def shutdown (s : Session) : Session := { s with state := s.state.shutdown }

def writeTo (s : Session) (sinks : Sinks) (e : Entry) : Session :=
  { s with
    console := s.console ++ (sinks.console?.map (·.lines s.time e)).getD []
    tree := (sinks.file?.map (·.write s.time s.tree e)).getD s.tree
    stderr := s.stderr ++ (sinks.file?.map (·.complaint s.time e)).getD [] }

def deliver (e : Entry) (s : Session) (h : Handler) : Session :=
  match h with
  | .foreign _ => s
  | .ours n =>
      match s.state.running.find? (·.number == n) with
      | some l => s.writeTo l.sinks e
      | none => s

def lastResort (s : Session) (e : Entry) : Session :=
  if e.level < warning then s else { s with stderr := s.stderr ++ e.message ++ [ch '\n'] }

def emit (s : Session) (e : Entry) : Session :=
  if e.level < s.state.level then s
  else if s.state.handlers.isEmpty then s.lastResort e
  else s.state.handlers.foldl (deliver e) s

def emitAll (s : Session) (es : List Entry) : Session := es.foldl emit s

def attach (s : Session) (owner : Nat) : Session := { s with state := s.state.attach owner }

def detach (s : Session) (owner : Nat) : Session := { s with state := s.state.detach owner }

end Session
end CodeCompaction.Log
