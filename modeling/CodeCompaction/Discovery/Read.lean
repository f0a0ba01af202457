import CodeCompaction.Batch.Run
import CodeCompaction.Discovery.Walk
import CodeCompaction.FileTree.Change

namespace CodeCompaction.Discovery

open CodeCompaction.Path CodeCompaction.FileTree

def logger : String := "compactor4ai.core.services.scanner"

def maxFileSize : Nat := 5 * 1024 * 1024

structure FileInfo where
  name : Text
  path : Text
  content : Text
  isText : Bool
  relative : Text
  deriving Repr, DecidableEq

def warn (message : Text) : Logged Unit := Logged.write Log.warning logger message

def sizeOf : Node → Nat
  | .file bytes => bytes.size
  | _ => 0

inductive ReadFault where
  | unreachable (f : Fault)
  | tooLarge
  | unreadable (f : Fault)
  | notUtf8
  deriving Repr, DecidableEq

def undecodable : Text := "'utf-8' codec can't decode the content: invalid byte sequence".toText

def ReadFault.message (path : Text) : ReadFault → Text
  | .unreachable f => "Cannot stat file, skipping: ".toText ++ path ++ " - ".toText ++ f.message path
  | .tooLarge => "File too large, skipping: ".toText ++ path
  | .unreadable f => "Failed to read file as text: ".toText ++ path ++ " - ".toText ++ f.message path
  | .notUtf8 => "Failed to read file as text: ".toText ++ path ++ " - ".toText ++ undecodable

def readText (t : Tree) (path : Text) : Except ReadFault Text :=
  match t.read path with
  | .error f => .error (.unreadable f)
  | .ok bytes => (decode? bytes).elim (.error .notUtf8) .ok

def readInfo (t : Tree) (path relative : Text) : Except ReadFault FileInfo :=
  let name := baseName path
  let shown := if relative.isEmpty then name else relative
  match t.stat path with
  | .error f => .error (.unreachable f)
  | .ok node =>
      if maxFileSize < sizeOf node then .error .tooLarge
      else if isText path then
        (readText t path).map fun content => { name, path, content, isText := true, relative := shown }
      else .ok { name, path, content := [], isText := false, relative := shown }

def readInfoLogged (t : Tree) (path relative : Text) : Logged (Option FileInfo) :=
  match readInfo t path relative with
  | .ok info => pure (some info)
  | .error e => do
      warn (e.message path)
      pure none

def readAll (t : Tree) : List Found → Logged (List FileInfo)
  | [] => pure []
  | f :: fs => do
      let info? ← readInfoLogged t f.path f.relative
      let rest ← readAll t fs
      pure (info?.toList ++ rest)

def readPath (t : Tree) (current given : Text) : Logged (List FileInfo) :=
  let path := absolute current given
  if !t.contains path then do
    warn ("Path does not exist: ".toText ++ given)
    pure []
  else if t.isFile path then readAll t [{ path, relative := baseName path }]
  else readAll t (walk t path)

def readEach (t : Tree) (current : Text) : List Text → Logged (List FileInfo)
  | [] => pure []
  | p :: ps => do
      let infos ← readPath t current p
      let rest ← readEach t current ps
      pure (infos ++ rest)

def readPaths (t : Tree) (current : Text) (given : List Text) : Logged (List FileInfo) := do
  let infos ← readEach t current given
  Logged.write Log.info logger
    ("Read ".toText ++ Number.decimal infos.length ++ " files from paths".toText)
  pure infos

def records (infos : List FileInfo) : List Batch.Record :=
  (infos.filter FileInfo.isText).map fun f => { id := f.path, name := f.name, content := f.content }

end CodeCompaction.Discovery
