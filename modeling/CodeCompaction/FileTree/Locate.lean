import CodeCompaction.FileTree.Basic

namespace CodeCompaction.FileTree

open CodeCompaction.Path

def maxLinks : Nat := 40

def maxNameBytes : Nat := 255

def maxPathBytes : Nat := 4095

namespace Tree

def isDirAt (t : Tree) (p : Place) : Bool := t.node? p == some .dir

/-- The place to which parts lead from `here`; where nothing is, only the last part may be missing. -/
def follow (t : Tree) : Nat → Place → List Text → Except Fault Place
  | _, here, [] => .ok here
  | links, here, part :: rest =>
      if !t.isDirAt here then .error (if (t.node? here).isSome then .notDirectory else .noEntry)
      else if part.isEmpty || part == [ch '.'] then t.follow links here rest
      else if part == [ch '.', '.'] then t.follow links here.dropLast rest
      else if maxNameBytes < part.nameSize then .error .nameTooLong
      else match t.node? (here ++ [part]) with
        | some (.link target) =>
            match links with
            | 0 => .error .tooManyLinks
            | n + 1 => t.follow n (if isAbsolute target then [] else here) (parts target ++ rest)
        | _ => t.follow links (here ++ [part]) rest
termination_by links _ ps => (links, ps.length)

def locate (t : Tree) (path : Text) : Except Fault Place :=
  match path.pathRefusal? with
  | some e => .error (.illegal e)
  | none =>
      if path.isEmpty then .error .noEntry
      else if maxPathBytes < path.nameSize then .error .nameTooLong
      else t.follow maxLinks [] (parts path)

def at? (t : Tree) (path : Text) : Option Node :=
  match t.locate path with
  | .ok p => t.node? p
  | .error _ => none

def contains (t : Tree) (path : Text) : Bool := (t.at? path).isSome

def isFile (t : Tree) (path : Text) : Bool :=
  match t.at? path with
  | some (.file _) => true
  | _ => false

def isDir (t : Tree) (path : Text) : Bool := t.at? path == some .dir

def listing (t : Tree) (path : Text) : List Text :=
  match t.locate path with
  | .ok p => if t.isDirAt p then t.children p else []
  | .error _ => []

def stat (t : Tree) (path : Text) : Except Fault Node := do
  let p ← t.locate path
  match t.node? p with
  | some n => .ok n
  | none => .error .noEntry

def read (t : Tree) (path : Text) : Except Fault ByteArray := do
  match ← t.stat path with
  | .file bytes => .ok bytes
  | .dir => .error .isDirectory
  | .link _ => .error .tooManyLinks

end Tree

def seenFrom (current path : Text) : Text := if path.isEmpty then [] else join current path

end CodeCompaction.FileTree
