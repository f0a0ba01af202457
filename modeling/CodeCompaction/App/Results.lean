import CodeCompaction.App.Inputs
import CodeCompaction.Config.Basic
import CodeCompaction.Report.Summary

namespace CodeCompaction.App

open CodeCompaction.FileTree CodeCompaction.Report

structure Item where
  input : Input
  content : Text
  deriving Repr, DecidableEq

def itemsOf (inputs : List Input) (results : List Batch.Processed) : List Item :=
  (inputs.zip results).map fun (input, r) => { input, content := r.content }

def outputDir? (w : World) (c : Config.Settings) : Option Text :=
  if c.outputDir.isEmpty then none else some (Path.ofUser w.env w.current c.outputDir ['.'])

def endsLine (t : Text) : Bool := t.getLast? == some (ch '\n')

def header (source : Text) : Text := "==> ".toText ++ source ++ " <==\n".toText

def printed (several : Bool) (i : Item) : List Text :=
  (if several then [header i.input.source] else []) ++ i.content ::
    (if endsLine i.content then [] else [['\n']])

def byteCount (t : Text) : Int := t.byteLength

def baseReport (i : Item) : FileReport :=
  { source := i.input.source
    bytesIn := byteCount i.input.record.content
    bytesOut := byteCount i.content }

def printedReport (i : Item) : FileReport := { baseReport i with content := some i.content }

def writtenReport (path : Text) (error : Option Text) (i : Item) : FileReport :=
  { baseReport i with outputPath := some path, error }

def resultName (i : Item) : Text :=
  if i.input.source == stdinMark then i.input.record.name else i.input.source

def pathFor (w : World) (dir : Text) (c : Config.Settings) (i : Item) : Text :=
  Path.output w.current dir (resultName i) c.outputSuffix

structure Written where
  tree : Tree
  entries : List Log.Entry := []
  error? : Option Text := none
  raised? : Option Failure := none

def Written.faulty (t : Tree) (intro : Text) (f : Fault) (met path : Text) : Written :=
  match f.raised? with
  | some e => { tree := t, raised? := some e }
  | none =>
      let e := f.message met
      { tree := t, entries := [note Log.error (intro ++ path ++ ": ".toText ++ e)], error? := some e }

/-- Writes a result, in a directory that is made if need be. The file is there, and empty, when its content
turns out to have no form in UTF-8. -/
def writeResult (t : Tree) (path content : Text) : Written :=
  let made := t.makeDirs (Path.dirName path)
  match made.fault? with
  | some (f, p) => .faulty made.tree "Cannot create output directory for ".toText f p path
  | none =>
      match content.refusal? with
      | some e =>
          match made.tree.write path .empty with
          | .error f => .faulty made.tree "Failed to write ".toText f path path
          | .ok t' => { tree := t', raised? := some e }
      | none =>
          match made.tree.write path (encode content) with
          | .error f => .faulty made.tree "Failed to write ".toText f path path
          | .ok t' => { tree := t', entries := [note Log.debug ("Wrote ".toText ++ path)] }

structure Sent where
  session : Session
  report : FileReport
  raised? : Option Failure := none

structure Emitted where
  session : Session
  reports : List FileReport
  raised? : Option Failure := none

def sendAll {α : Type} (send : Session → α → Sent) : Session → List α → Emitted
  | s, [] => { session := s, reports := [] }
  | s, x :: xs =>
      let out := send s x
      match out.raised? with
      | some e => { session := out.session, reports := [], raised? := some e }
      | none =>
          let rest := sendAll send out.session xs
          { rest with reports := out.report :: rest.reports }

def writeOne (w : World) (dir : Text) (c : Config.Settings) (s : Session) (i : Item) : Sent :=
  let path := pathFor w dir c i
  let out := writeResult s.tree path i.content
  { session := (s.withTree out.tree).emit out.entries
    report := writtenReport path out.error? i
    raised? := out.raised? }

def printOne (w : World) (echo several : Bool) (s : Session) (i : Item) : Sent :=
  let out := if echo then s.print w (printed several i) else (s, none)
  { session := out.1, report := printedReport i, raised? := out.2 }

def emitResults (w : World) (c : Config.Settings) (echo : Bool) (s : Session) (is : List Item) : Emitted :=
  match outputDir? w c with
  | none => sendAll (printOne w echo (1 < is.length)) s is
  | some dir => sendAll (writeOne w dir c) s is

def total (count : FileReport → Int) (reports : List FileReport) : Int :=
  reports.foldr (fun r n => count r + n) 0

def summaryOf (c : Config.Settings) (reports : List FileReport) : Summary :=
  { ok := reports.all (fun r => (Summary.present r.error).isNone)
    mode := c.mode.tag.toText
    files := reports
    bytesIn := total FileReport.bytesIn reports
    bytesOut := total FileReport.bytesOut reports }

end CodeCompaction.App
