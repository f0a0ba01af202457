import CodeCompaction.Config.Basic
import CodeCompaction.Discovery.Read
import CodeCompaction.Json.Parse
import CodeCompaction.Json.Print
import CodeCompaction.Path.Expand

namespace CodeCompaction.Config

open CodeCompaction.Json CodeCompaction.Path CodeCompaction.FileTree

def logger : String := "compactor4ai.domain.config"

def dataDirName : Text := ".compactor4ai".toText

def fileName : Text := "config.json".toText

def version : Text := "1.0.0".toText

def dataDir (env : Environment) (current : Text) : Text :=
  absolute current (join (expandHome env ['~']) dataDirName)

def defaultPath (env : Environment) (current : Text) : Text := join (dataDir env current) fileName

def withDataDir (t : Tree) (env : Environment) (current : Text) : Tree :=
  (t.makeDirs (dataDir env current)).tree

def resolve (t : Tree) (env : Environment) (current given : Text) : Tree × Text :=
  if given.isEmpty then (withDataDir t env current, defaultPath env current) else (t, given)

inductive LoadOutcome where
  | missing
  | unusable (detail : Text)
  | notAnObject
  | loaded (members : Draft)

def containerName : Container → Text
  | .array => "array".toText
  | .object => "object".toText

def tooDeepError (c : Container) : Failure :=
  { kind := "RecursionError"
    message := "maximum recursion depth exceeded while decoding a JSON ".toText ++ containerName c ++
      " from a unicode string".toText }

def ofContent (limit : NestingLimit) (content : Text) : Except Failure LoadOutcome :=
  match parse limit true content with
  | .error (.tooDeep c) => .error (tooDeepError c)
  | .error .malformed => .ok (.unusable "malformed text".toText)
  | .ok (.obj ms) => .ok (.loaded ms)
  | .ok _ => .ok .notAnObject

def loadOutcome (limit : NestingLimit) (t : Tree) (path : Text) : Except Failure LoadOutcome :=
  if !t.contains path then .ok .missing
  else match t.read path with
    | .error f => .ok (.unusable (f.message path))
    | .ok bytes =>
        match decode? bytes with
        | none => .ok (.unusable Discovery.undecodable)
        | some content => ofContent limit (Text.unifyBreaks content)

def LoadOutcome.draft : LoadOutcome → Draft
  | .loaded ms => overDefaults ms
  | _ => defaults.draft

def note (level : Log.Level) (message : Text) : Log.Entry := { level, logger, message }

def LoadOutcome.entries (shown : Text) : LoadOutcome → List Log.Entry
  | .missing => [note Log.debug "Config file not found. Returning defaults.".toText]
  | .unusable detail =>
      [note Log.warning
        ("Failed to load config '".toText ++ shown ++ "': ".toText ++ detail ++ ". Using defaults.".toText)]
  | .notAnObject => [note Log.warning "Corrupted config file. Using defaults.".toText]
  | .loaded _ => []

def load (limit : NestingLimit) (t : Tree) (current given : Text) : Except Failure (Logged Draft) := do
  let out ← loadOutcome limit t (seenFrom current given)
  .ok { value := out.draft, entries := out.entries given }

def stored (d : Draft) : Value :=
  .obj (names.filterMap (fun n => (d.lookup n).map (n, ·)) ++ [("version".toText, .str version)])

def content (d : Draft) : Text := indented 4 (stored d)

structure Saved where
  tree : Tree
  error? : Option Text := none
  raised? : Option Failure := none

def Saved.faulty (t : Tree) (f : Fault) (path : Text) : Saved :=
  match f.raised? with
  | some e => { tree := t, raised? := some e }
  | none => { tree := t, error? := some (f.message path) }

def contentPieces (d : Draft) : List Text := indentedPieces 4 0 (stored d)

def writeContent (t : Tree) (path shown : Text) (d : Draft) : Saved :=
  match (contentPieces d).findSome? Text.refusal? with
  | none =>
      match t.write path (encode (content d)) with
      | .ok t' => { tree := t' }
      | .error f => .faulty t f shown
  | some e =>
      match t.write path (encode ((contentPieces d).takeWhile Text.isScalar).flatten) with
      | .ok t' => { tree := t', raised? := some e }
      | .error f => .faulty t f shown

def saveFile (t : Tree) (current given : Text) (d : Draft) : Saved :=
  let made := t.makeDirs (dirName (absolute current given))
  match made.fault? with
  | some (f, path) => .faulty made.tree f path
  | none => writeContent made.tree (seenFrom current given) given d

def Saved.ok (s : Saved) : Bool := s.error?.isNone && s.raised?.isNone

def Saved.entries (given : Text) (s : Saved) : List Log.Entry :=
  match s.error? with
  | some e => [note Log.error ("Failed to save configuration: ".toText ++ e)]
  | none => [note Log.debug ("Configuration saved to ".toText ++ given)]

end CodeCompaction.Config
