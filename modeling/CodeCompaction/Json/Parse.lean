import CodeCompaction.Json.Token

namespace CodeCompaction.Json

inductive Container where
  | array
  | object
  deriving Repr, DecidableEq

inductive ParseError where
  | malformed
  | tooDeep (c : Container)
  deriving Repr, DecidableEq

/-- How deep containers may nest before the reader gives up; there is always room for 200 levels. -/
structure NestingLimit where
  levels : Nat
  least : 200 ≤ levels
  deriving Repr, DecidableEq

def NestingLimit.usual : NestingLimit := { levels := 960, least := by decide }

inductive Frame where
  | array (items : List Value)
  | object (members : List (Text × Value))
  | member (members : List (Text × Value)) (name : Text)

inductive Next where
  | value
  | valueOrClose
  | name
  | nameOrClose
  | colon
  | separator
  deriving Repr, DecidableEq

inductive Reading where
  | within (frames : List Frame) (next : Next)
  | complete (v : Value)

def place (v : Value) : List Frame → Except ParseError Reading
  | [] => .ok (.complete v)
  | .array items :: fs => .ok (.within (.array (v :: items) :: fs) .separator)
  | .member ms name :: fs => .ok (.within (.object ((name, v) :: ms) :: fs) .separator)
  | .object _ :: _ => .error .malformed

def enterArray (limit : NestingLimit) (fs : List Frame) : Except ParseError Reading :=
  if limit.levels ≤ fs.length then .error (.tooDeep .array) else .ok (.within (.array [] :: fs) .valueOrClose)

def enterObject (limit : NestingLimit) (fs : List Frame) : Except ParseError Reading :=
  if limit.levels ≤ fs.length then .error (.tooDeep .object) else .ok (.within (.object [] :: fs) .nameOrClose)

def readValue (limit : NestingLimit) (specials : Bool) (fs : List Frame) : Token → Except ParseError Reading
  | .scalar v => place v fs
  | .text t => place (.str t) fs
  | .special x => if specials then place (.real x) fs else .error .malformed
  | .openArray => enterArray limit fs
  | .openObject => enterObject limit fs
  | _ => .error .malformed

def closeArray : List Frame → Except ParseError Reading
  | .array items :: fs => place (.arr items.reverse) fs
  | _ => .error .malformed

def closeObject : List Frame → Except ParseError Reading
  | .object ms :: fs => place (.obj (settled ms.reverse)) fs
  | _ => .error .malformed

def readName : List Frame → Token → Except ParseError Reading
  | .object ms :: fs, .text t => .ok (.within (.member ms t :: fs) .colon)
  | _, _ => .error .malformed

def readSeparator : List Frame → Token → Except ParseError Reading
  | fs, .closeArray => closeArray fs
  | fs, .closeObject => closeObject fs
  | .array items :: fs, .comma => .ok (.within (.array items :: fs) .value)
  | .object ms :: fs, .comma => .ok (.within (.object ms :: fs) .name)
  | _, _ => .error .malformed

def read (limit : NestingLimit) (specials : Bool) : Reading → Token → Except ParseError Reading
  | .complete _, _ => .error .malformed
  | .within fs .value, k => readValue limit specials fs k
  | .within fs .valueOrClose, .closeArray => closeArray fs
  | .within fs .valueOrClose, k => readValue limit specials fs k
  | .within fs .name, k => readName fs k
  | .within fs .nameOrClose, .closeObject => closeObject fs
  | .within fs .nameOrClose, k => readName fs k
  | .within fs .colon, .colon => .ok (.within fs .value)
  | .within _ .colon, _ => .error .malformed
  | .within fs .separator, k => readSeparator fs k

def readAll (limit : NestingLimit) (specials : Bool) (r : Reading) (ks : List Token) : Except ParseError Reading :=
  ks.foldlM (read limit specials) r

def start : Reading := .within [] .value

def Reading.result : Reading → Except ParseError Value
  | .complete v => .ok v
  | .within _ _ => .error .malformed

def parse (limit : NestingLimit) (specials : Bool) (t : Text) : Except ParseError Value := do
  (← readAll limit specials start (tokens t)).result

end CodeCompaction.Json
