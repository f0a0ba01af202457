import CodeCompaction.Batch.Run
import CodeCompaction.FileTree.Change
import CodeCompaction.Log.Bootstrap
import CodeCompaction.Path.Expand
import CodeCompaction.Tokens

namespace CodeCompaction.App

open CodeCompaction.FileTree

inductive Stdin where
  | content (bytes : ByteArray)
  | interrupted

structure World where
  tree : Tree
  current : Text
  env : Path.Environment
  stdin : Stdin
  /-- The failure with which the standard output meets a text that it does not take, as its encoding has it. -/
  refuses : Text → Option Failure
  vocabularies : Tokens.Source
  transform : Mode → Batch.Transform
  /-- How deep the configuration may nest. -/
  limit : Json.NestingLimit
  time : Text

structure Finish where
  exit : Nat
  stdout : Text
  stderr : Text
  console : List Text
  tree : Tree

structure Session where
  log : Log.Session
  stdout : Text := []

namespace Session

def tree (s : Session) : Tree := s.log.tree

def withTree (s : Session) (t : Tree) : Session := { s with log := { s.log with tree := t } }

def emit (s : Session) (es : List Log.Entry) : Session := { s with log := s.log.emitAll es }

def print (w : World) (s : Session) : List Text → Session × Option Failure
  | [] => (s, none)
  | t :: ts =>
      match w.refuses t with
      | some e => (s, some e)
      | none => print w { s with stdout := s.stdout ++ t } ts

def complain (s : Session) (t : Text) : Session :=
  { s with log := { s.log with stderr := s.log.stderr ++ t } }

def finish (s : Session) (exit : Nat) : Finish :=
  { exit, stdout := s.stdout, stderr := s.log.stderr, console := s.log.console, tree := s.log.tree }

end Session

def logger : String := "compactor4ai.interface.cli.app"

def note (level : Log.Level) (message : Text) : Log.Entry := { level, logger, message }

def supervisor : String := "compactor4ai.supervisor"

def banner : Text :=
  let rule : Text := List.replicate 80 (ch '=') ++ [ch '\n']
  ch '\n' :: rule ++ "CRITICAL ERROR (COMPACTOR4AI CLI)\n".toText ++ rule

def fatal (s : Session) (e : Failure) : Finish :=
  let trace := traceHeading ++ e.line ++ [ch '\n']
  let entry : Log.Entry :=
    { level := Log.critical, logger := supervisor
      message := "FATAL EXCEPTION DETECTED: ".toText ++ e.message ++ ch '\n' :: trace }
  ((s.emit [entry]).complain (banner ++ trace ++ [ch '\n'])).finish 1

def ended (exit : Nat) : Session × Option Failure → Finish
  | (s, none) => s.finish exit
  | (s, some e) => fatal s e

end CodeCompaction.App
