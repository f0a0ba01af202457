import CodeCompaction.Discovery.Name
import CodeCompaction.FileTree.Locate

namespace CodeCompaction.Discovery

open CodeCompaction.Path CodeCompaction.FileTree

def textLe : Text → Text → Bool
  | [], _ => true
  | _ :: _, [] => false
  | a :: as, b :: bs => a.toNat < b.toNat || (a == b && textLe as bs)

def sorted (names : List Text) : List Text := names.mergeSort textLe

structure Found where
  path : Text
  relative : Text
  deriving Repr, DecidableEq

def below (relative name : Text) : Text := if relative.isEmpty then name else relative ++ ch '/' :: name

def filesOf (t : Tree) (dir relative : Text) : List Found :=
  ((sorted (t.listing dir)).filter (fun n => t.isFile (join dir n))).map
    fun n => { path := join dir n, relative := below relative n }

def dirsOf (t : Tree) (dir : Text) : List Text :=
  (sorted (t.listing dir)).filter (fun n => t.isDir (join dir n))

def walkWith (enter : Text → Bool) (t : Tree) : Nat → Text → Text → List Found
  | 0, _, _ => []
  | depth + 1, dir, relative =>
      filesOf t dir relative ++
        ((dirsOf t dir).filter enter).flatMap fun d =>
          walkWith enter t depth (join dir d) (below relative d)

def startsWithDot (name : Text) : Bool := name.head? == some (ch '.')

def maxDepth : Nat := maxPathBytes

def walk (t : Tree) (dir : Text) : List Found :=
  (walkWith (fun d => !startsWithDot d) t maxDepth dir []).filter (fun f => !isHidden f.relative)

end CodeCompaction.Discovery
