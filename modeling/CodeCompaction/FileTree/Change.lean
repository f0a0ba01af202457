import CodeCompaction.FileTree.Locate

namespace CodeCompaction.FileTree

open CodeCompaction.Path

namespace Tree

def makeDir (t : Tree) (path : Text) : Except Fault Tree := do
  (path.pathRefusal?.map Fault.illegal).elim (.ok ()) .error
  let parent ← t.locate (dirName path)
  let name := baseName path
  if !t.isDirAt parent then
    .error (if (t.node? parent).isSome then .notDirectory else .noEntry)
  else if name.isEmpty then .error .exists
  else if maxNameBytes < name.nameSize then .error .nameTooLong
  else if maxPathBytes < path.nameSize then .error .nameTooLong
  else if (t.node? (parent ++ [name])).isSome then .error .exists
  else .ok (t.set (parent ++ [name]) .dir)

structure Attempt where
  tree : Tree
  fault? : Option (Fault × Text) := none

def Attempt.raised? (a : Attempt) : Option Failure := a.fault?.bind fun (f, _) => f.raised?

def ensureDir (t : Tree) (path : Text) : Attempt :=
  match t.makeDir path with
  | .ok t' => { tree := t' }
  | .error f => { tree := t, fault? := if t.isDir path then none else some (f, path) }

def rooted (reversed : List Text) : Text := '/' :: slashed reversed.reverse

def makeDirsUp (t : Tree) : List Text → Attempt
  | [] => t.ensureDir ['/']
  | name :: up =>
      let above : Attempt := if t.contains (rooted up) then { tree := t } else t.makeDirsUp up
      match above.fault? with
      | some (.exists, _) => above.tree.ensureDir (rooted (name :: up))
      | some _ => above
      | none => above.tree.ensureDir (rooted (name :: up))

def makeDirs (t : Tree) (path : Text) : Attempt :=
  t.makeDirsUp ((parts path).filter (!·.isEmpty)).reverse

def writable (t : Tree) (path : Text) : Except Fault Place := do
  let p ← t.locate path
  match t.node? p with
  | some .dir => .error .isDirectory
  | some _ => .ok p
  | none => if t.isDirAt p.dropLast then .ok p else .error .noEntry

def write (t : Tree) (path : Text) (bytes : ByteArray) : Except Fault Tree := do
  let p ← t.writable path
  .ok (t.set p (.file bytes))

def bytesAt (t : Tree) (p : Place) : ByteArray :=
  match t.node? p with
  | some (.file bytes) => bytes
  | _ => .empty

def openForMore (t : Tree) (path : Text) : Except Fault (Place × Tree) := do
  let p ← t.writable path
  .ok (p, t.set p (.file (t.bytesAt p)))

def append (t : Tree) (p : Place) (bytes : ByteArray) : Tree := t.set p (.file (t.bytesAt p ++ bytes))

def move (t : Tree) (source target : Place) : Tree :=
  match t.node? source with
  | some n => (t.erase source).set target n
  | none => t

end Tree

end CodeCompaction.FileTree
