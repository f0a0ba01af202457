import CodeCompaction.App.World
import CodeCompaction.Discovery.Read
import CodeCompaction.Options.Basic

namespace CodeCompaction.App

open CodeCompaction.FileTree

def stdinMark : Text := ['-']

structure Input where
  record : Batch.Record
  source : Text
  deriving Repr, DecidableEq

inductive Stop where
  | interrupted
  | failed (e : Failure)
  deriving Repr, DecidableEq

structure Inputs where
  inputs : List Input := []
  entries : List Log.Entry := []
  stop? : Option Stop := none

def stdinName (extension : Options.Argument) : Text :=
  let ext := match extension with
    | none => Path.defaultExtension
    | some t => if t.isEmpty then Path.defaultExtension else t
  "stdin.".toText ++ ext.dropWhile (· == '.')

def undecodableInput : Failure := { kind := "UnicodeDecodeError", message := Discovery.undecodable }

def readStdin (alreadyRead : Bool) : Stdin → Except Stop Text
  | .interrupted => .error .interrupted
  | .content bytes =>
      if alreadyRead then .ok []
      else match decode? bytes with
        | none => .error (.failed undecodableInput)
        | some t => .ok (Text.unifyBreaks t)

def skippedEntries (given : Text) (n : Nat) : List Log.Entry :=
  if n == 0 then []
  else [note Log.info ("Skipping ".toText ++ Number.decimal n ++ " non-text file(s) under ".toText ++ given)]

def inputsBelow (w : World) (t : Tree) (given : Text) : Inputs :=
  let found := Discovery.readPaths t w.current [given]
  let kept := found.value.filter Discovery.FileInfo.isText
  { inputs := kept.map fun f =>
      { record := { id := f.path, name := f.name, content := f.content }, source := f.relative }
    entries := found.entries ++ skippedEntries given (found.value.length - kept.length) }

def Inputs.andThen (a b : Inputs) : Inputs :=
  { inputs := a.inputs ++ b.inputs, entries := a.entries ++ b.entries, stop? := b.stop? }

def collect (w : World) (t : Tree) (extension : Options.Argument) : Bool → List Text → Inputs
  | _, [] => {}
  | alreadyRead, p :: ps =>
      if p == stdinMark then
        match readStdin alreadyRead w.stdin with
        | .error stop => { stop? := some stop }
        | .ok content =>
            let input : Input :=
              { record := { id := stdinMark, name := stdinName extension, content }, source := stdinMark }
            { inputs := [input] : Inputs }.andThen (collect w t extension true ps)
      else (inputsBelow w t p).andThen (collect w t extension alreadyRead ps)

end CodeCompaction.App
