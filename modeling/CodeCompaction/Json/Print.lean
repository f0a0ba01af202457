import CodeCompaction.Json.Basic
import CodeCompaction.Number.Notation
import CodeCompaction.Text.Printable

namespace CodeCompaction.Json

open CodeCompaction.Number

def escapedChar (c : CodePoint) : Text :=
  if c == '"' then ['\\', '"']
  else if c == '\\' then ['\\', '\\']
  else if c == '\n' then ['\\', 'n']
  else if c == '\r' then ['\\', 'r']
  else if c == '\t' then ['\\', 't']
  else if c == '\x08' then ['\\', 'b']
  else if c == '\x0c' then ['\\', 'f']
  else if c.toNat < 0x20 then '\\' :: 'u' :: Text.hexPadded 4 c.toNat
  else [c]

def stringText (t : Text) : Text := ch '"' :: t.flatMap escapedChar ++ [ch '"']

def scalarText : Value → Text
  | .null => "null".toText
  | .bool true => "true".toText
  | .bool false => "false".toText
  | .int i => signed i
  | .real x => shortestText longNames x
  | .str t => stringText t
  | .arr _ => []
  | .obj _ => []

mutual

def compactOnto : Value → Text → Text
  | .arr items, rest => '[' :: compactItems items (']' :: rest)
  | .obj ms, rest => '\x7b' :: compactMembers ms ('\x7d' :: rest)
  | v, rest => scalarText v ++ rest

def compactItems : List Value → Text → Text
  | [], rest => rest
  | [v], rest => compactOnto v rest
  | v :: w :: vs, rest => compactOnto v (',' :: compactItems (w :: vs) rest)

def compactMembers : List (Text × Value) → Text → Text
  | [], rest => rest
  | [(n, v)], rest => stringText n ++ ch ':' :: compactOnto v rest
  | (n, v) :: m :: ms, rest =>
      stringText n ++ ch ':' :: compactOnto v (ch ',' :: compactMembers (m :: ms) rest)

end

def compact (v : Value) : Text := compactOnto v []

def newline (width depth : Nat) : Text := '\n' :: List.replicate (width * depth) (ch ' ')

mutual

def indentedOnto (width : Nat) : Nat → Value → Text → Text
  | _, .arr [], rest => '[' :: ']' :: rest
  | _, .obj [], rest => '\x7b' :: '\x7d' :: rest
  | depth, .arr (v :: vs), rest =>
      ch '[' :: indentedItems width (depth + 1) (v :: vs) (newline width depth ++ ch ']' :: rest)
  | depth, .obj (m :: ms), rest =>
      ch '\x7b' :: indentedMembers width (depth + 1) (m :: ms) (newline width depth ++ ch '\x7d' :: rest)
  | _, v, rest => scalarText v ++ rest

def indentedItems (width : Nat) : Nat → List Value → Text → Text
  | _, [], rest => rest
  | depth, v :: vs, rest =>
      newline width depth ++ indentedOnto width depth v
        ((if vs.isEmpty then [] else [ch ',']) ++ indentedItems width depth vs rest)

def indentedMembers (width : Nat) : Nat → List (Text × Value) → Text → Text
  | _, [], rest => rest
  | depth, (n, v) :: ms, rest =>
      newline width depth ++ stringText n ++ ch ':' :: ch ' ' :: indentedOnto width depth v
        ((if ms.isEmpty then [] else [ch ',']) ++ indentedMembers width depth ms rest)

end

def indented (width : Nat) (v : Value) : Text := indentedOnto width 0 v []

mutual

def indentedPieces (width : Nat) : Nat → Value → List Text
  | _, .arr [] => ["[]".toText]
  | _, .obj [] => ["\x7b\x7d".toText]
  | depth, .arr (v :: vs) =>
      itemPieces width (depth + 1) ['['] (v :: vs) ++ [newline width depth, [']']]
  | depth, .obj (m :: ms) =>
      memberPieces width (depth + 1) ['\x7b'] (m :: ms) ++ [newline width depth, ['\x7d']]
  | _, v => [scalarText v]

def itemPieces (width : Nat) : Nat → Text → List Value → List Text
  | _, _, [] => []
  | depth, front, v :: vs =>
      (match indentedPieces width depth v with
        | [p] => [front ++ newline width depth ++ p]
        | ps => (front ++ newline width depth) :: ps) ++
        itemPieces width depth [','] vs

def memberPieces (width : Nat) : Nat → Text → List (Text × Value) → List Text
  | _, _, [] => []
  | depth, front, (n, v) :: ms =>
      front :: newline width depth :: stringText n :: ": ".toText :: indentedPieces width depth v ++
        memberPieces width depth [','] ms

end

mutual

def isFinite : Value → Bool
  | .real x => x.isFinite
  | .arr items => itemsFinite items
  | .obj ms => membersFinite ms
  | _ => true

def itemsFinite : List Value → Bool
  | [] => true
  | v :: vs => isFinite v && itemsFinite vs

def membersFinite : List (Text × Value) → Bool
  | [] => true
  | (_, v) :: ms => isFinite v && membersFinite ms

end

end CodeCompaction.Json
