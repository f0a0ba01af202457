import CodeCompaction.App.Run
import Std.Time

namespace CodeCompaction.Main

open CodeCompaction.FileTree

def shown (t : Text) : String :=
  String.join (t.map fun
    | ch c => c.toString
    | .lone n => "\\u" ++ String.ofList (Nat.toDigits 16 (0xD800 + n.val)))

def pathText (p : Place) : String := shown (ch '/' :: Path.slashed p)

def placeOf (path : Text) : Place := (Path.parts path).filter (!·.isEmpty)

def nodeAt? (p : Place) : IO (Option Node) := do
  let entry : IO.FS.DirEntry := { root := pathText p, fileName := "" }
  try
    match (← entry.root.symlinkMetadata).type with
    | .dir => pure (some .dir)
    | .symlink => do
        let target ← IO.FS.realPath entry.root
        pure (some (.link target.toString.toText))
    | .file => do pure (some (.file (← IO.FS.readBinFile entry.root)))
    | .other => pure none
  catch _ => pure none

def namesIn (p : Place) : IO (List Text) := do
  let entry : IO.FS.DirEntry := { root := pathText p, fileName := "" }
  try
    pure ((← entry.root.readDir).toList.map (·.fileName.toText))
  catch _ => pure []

def copyPlace (depth : Nat) (t : Tree) (p : Place) : IO Tree := do
  match depth with
  | 0 => pure t
  | depth + 1 =>
      let mut t := t
      for n in List.range p.length do
        let q := p.take (n + 1)
        if (t.node? q).isNone then
          match ← nodeAt? q with
          | none => pure ()
          | some (.link target) =>
              t ← copyPlace depth (t.set q (.link target)) (placeOf target ++ p.drop (n + 1))
          | some node => t := t.set q node
      pure t

def copyBelow (depth : Nat) (t : Tree) (p : Place) : IO Tree := do
  match depth with
  | 0 => pure t
  | depth + 1 =>
      let mut t ← copyPlace depth t p
      let real := (t.locate (pathText p).toText).toOption.getD p
      if t.isDirAt real then
        for name in ← namesIn real do
          t ← copyBelow depth t (real ++ [name])
      pure t

def maxDepth : Nat := 200

def mentioned : Text → List Text
  | [] => []
  | c :: cs => (if c == ch '$' then (Path.variableName cs).toList.map Prod.fst else []) ++ mentioned cs

/-- The variables that are mentioned; of other users' home directories nothing is known. -/
def environment (texts : List Text) : IO Path.Environment := do
  let names := Path.homeVariable :: texts.flatMap mentioned
  let bindings ← names.filterMapM fun n => do
    pure ((← IO.getEnv (shown n)).map fun v => (n, v.toText))
  pure { bindings }

def isChanged (before : Tree) (e : Place × Node) : Bool := !(before.node? e.1 == some e.2)

def changedPlaces (before after : Tree) : List Place := (after.entries.filter (isChanged before)).map Prod.fst

def settled (argv : List Text) : Nat → App.World → IO (App.World × App.Finish)
  | 0, w => pure (w, App.run w argv)
  | rounds + 1, w => do
      let out := App.run w argv
      let t ← (changedPlaces w.tree out.tree).foldlM (copyPlace maxDepth) w.tree
      if t.entries.length == w.tree.entries.length then pure (w, out)
      else settled argv rounds { w with tree := t }

def writeBack (before after : Tree) : IO Unit := do
  for (p, _) in before.entries do
    if (after.node? p).isNone then IO.FS.removeFile (pathText p)
  for (p, node) in after.entries do
    if isChanged before (p, node) then
      match node with
      | .dir => IO.FS.createDir (pathText p)
      | .file bytes => IO.FS.writeBinFile (pathText p) bytes
      | .link _ => pure ()

def isPath (argument : Text) : Bool := argument != App.stdinMark

def readsStdin (argv : List Text) : Bool :=
  match Options.ofWords argv with
  | .ok o => (App.pathsOf o).contains App.stdinMark && !o.dumpConfig
  | .error _ => false

def readAll (s : IO.FS.Stream) : IO ByteArray := do
  let mut bytes := ByteArray.empty
  repeat
    let chunk ← s.read 65536
    if chunk.isEmpty then break
    bytes := bytes ++ chunk
  pure bytes

def now : IO Text := do
  pure ((← Std.Time.PlainDateTime.now).format "uuuu-MM-dd HH:mm:ss").toText

def noVocabularies : Tokens.Source := fun _ => .error (.unavailable "no vocabulary is installed".toText)

def world (argv : List Text) : IO App.World := do
  let current := (← IO.currentDir).toString.toText
  let given := match Options.ofWords argv with
    | .ok o => (App.pathsOf o).filter isPath
    | .error _ => []
  let home ← environment []
  let config := Config.defaultPath home current
  let mut t ← copyPlace maxDepth {} (placeOf current)
  t ← copyPlace maxDepth t (placeOf config)
  for p in given do
    t ← copyBelow maxDepth t (placeOf (Path.absolute current p))
  let configText := ((t.read config).toOption.bind decode?).getD []
  pure {
    tree := t
    current
    env := ← environment (configText :: argv)
    stdin := .content (← if readsStdin argv then readAll (← IO.getStdin) else pure .empty)
    refuses := Text.refusal?
    vocabularies := noVocabularies
    transform := Batch.byMode Json.NestingLimit.usual
    limit := Json.NestingLimit.usual
    time := ← now }

end CodeCompaction.Main

open CodeCompaction CodeCompaction.Main in
def main (arguments : List String) : IO UInt32 := do
  let argv := arguments.map String.toText
  let (w, out) ← settled argv 4 (← world argv)
  writeBack w.tree out.tree
  (← IO.getStdout).write (encode out.stdout)
  let stderr ← IO.getStderr
  for line in out.console do
    stderr.putStrLn (shown line)
  stderr.putStr (shown out.stderr)
  pure out.exit.toUInt32
