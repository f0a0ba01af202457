import CodeCompaction.FileTree.Change
import CodeCompaction.Log.Entry

namespace CodeCompaction.Log

open CodeCompaction.FileTree CodeCompaction.Path

structure ConsoleSink where
  level : Level
  template : Text
  deriving Repr, DecidableEq

structure FileSink where
  level : Level
  template : Text
  path : Text
  maxBytes : Int
  backups : Nat
  deriving Repr, DecidableEq

def FileSink.numbered (s : FileSink) (n : Nat) : Text := s.path ++ ch '.' :: Number.decimal n

def placeOf (t : Tree) (path : Text) : Option Place :=
  match t.locate (dirName path) with
  | .ok p => some (p ++ [baseName path])
  | .error _ => none

def moved (t : Tree) (source target : Text) : Tree :=
  match placeOf t source, placeOf t target with
  | some p, some q => if t.contains source then t.move p q else t
  | _, _ => t

def shifted (s : FileSink) (t : Tree) : Nat → Tree
  | 0 => t
  | n + 1 => shifted s (moved t (s.numbered (n + 1)) (s.numbered (n + 2))) n

def opened (t : Tree) (path : Text) : Tree :=
  match t.openForMore path with
  | .ok (_, t') => t'
  | .error _ => t

def rolledOver (s : FileSink) (t : Tree) : Tree :=
  opened (moved (shifted s t (s.backups - 1)) s.path (s.numbered 1)) s.path

def sizeAt (t : Tree) (path : Text) : Nat :=
  match t.read path with
  | .ok bytes => bytes.size
  | .error _ => 0

def FileSink.isFull (s : FileSink) (t : Tree) (line : Text) : Bool :=
  0 < s.maxBytes && s.backups != 0 && s.maxBytes ≤ (sizeAt t s.path + line.length : Nat)

def appended (t : Tree) (path line : Text) : Tree :=
  match t.openForMore path with
  | .ok (p, t') => t'.append p (encode line)
  | .error _ => t

def FileSink.line (s : FileSink) (time : Text) (e : Entry) : Text := format s.template time e ++ [ch '\n']

def FileSink.write (s : FileSink) (time : Text) (t : Tree) (e : Entry) : Tree :=
  if e.level < s.level then t
  else
    let line := s.line time e
    let t := if s.isFull t line then rolledOver s t else t
    if line.isScalar then appended t s.path line else t

def FileSink.complaint (s : FileSink) (time : Text) (e : Entry) : Text :=
  if e.level < s.level then []
  else match Text.refusal? (s.line time e) with
    | none => []
    | some f =>
        "--- Logging error ---\n".toText ++ traceHeading ++ f.line ++ "\nCall stack:\nMessage: ".toText ++
          Text.quoted e.message ++ "\nArguments: None\n".toText

def ConsoleSink.lines (s : ConsoleSink) (time : Text) (e : Entry) : List Text :=
  if e.level < s.level then [] else [format s.template time e]

end CodeCompaction.Log
