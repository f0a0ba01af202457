import CodeCompaction.Text.Basic

namespace CodeCompaction.Path

def isSlash (c : CodePoint) : Bool := c == '/'

def afterLast (sep : CodePoint) (t : Text) : Text := (t.reverse.takeWhile (· != sep)).reverse

def baseName (p : Text) : Text := afterLast '/' p

def dirName (p : Text) : Text :=
  let head := p.take (p.length - (baseName p).length)
  if head.all isSlash then head else (head.reverse.dropWhile isSlash).reverse

def extensionLength (name : Text) : Nat :=
  let body := name.dropWhile (· == ch '.')
  if body.contains (ch '.') then (afterLast (ch '.') body).length + 1 else 0

def splitExtension (p : Text) : Text × Text :=
  p.splitAt (p.length - extensionLength (baseName p))

def join (a b : Text) : Text :=
  if b.head? == some (ch '/') then b
  else if a.isEmpty || a.getLast? == some (ch '/') then a ++ b
  else a ++ ch '/' :: b

def slashed (parts : List Text) : Text := List.intercalate ['/'] parts

def parts (p : Text) : List Text := Text.pieces isSlash p

def leadingSlashes (p : Text) : Nat :=
  let n := (p.takeWhile isSlash).length
  if n == 2 then 2 else min n 1

def resolveParts (rooted : Bool) : List Text → List Text → List Text
  | acc, [] => acc
  | acc, p :: ps =>
      if p.isEmpty || p == [ch '.'] then resolveParts rooted acc ps
      else if p == [ch '.', '.'] then
        match acc with
        | [] => resolveParts rooted (if rooted then [] else [p]) ps
        | q :: qs =>
            if q == [ch '.', '.'] then resolveParts rooted (p :: acc) ps
            else resolveParts rooted qs ps
      else resolveParts rooted (p :: acc) ps

def normalize (p : Text) : Text :=
  let n := leadingSlashes p
  let t := List.replicate n (ch '/') ++ slashed (resolveParts (n != 0) [] (parts p)).reverse
  if t.isEmpty then ['.'] else t

def isAbsolute (p : Text) : Bool := p.head? == some (ch '/')

def absolute (current p : Text) : Text :=
  normalize (if isAbsolute p then p else join current p)

def defaultExtension : Text := "txt".toText

def extensionOfName (name : Text) : Text :=
  match (splitExtension (baseName name)).2 with
  | _ :: c :: cs => c :: cs
  | _ => defaultExtension

end CodeCompaction.Path
