import CodeCompaction.Number.Decimal
import CodeCompaction.Text.Printable

namespace CodeCompaction

structure Failure where
  kind : String
  message : Text
  deriving Repr, DecidableEq

def Failure.line (e : Failure) : Text :=
  if e.message.isEmpty then e.kind.toText else e.kind.toText ++ ": ".toText ++ e.message

def traceHeading : Text := "Traceback (most recent call last):\n".toText

def encode (t : Text) : ByteArray := (t.flatMap CodePoint.bytes).toByteArray

def decode? (bytes : ByteArray) : Option Text := (String.fromUTF8? bytes).map String.toText

namespace Text

def isScalar (t : Text) : Bool := t.all (!·.isLone)

/-- A surrogate that stands for a byte of a name that is not UTF-8. -/
def isEscapedByte : CodePoint → Bool
  | ch _ => false
  | .lone n => 0x480 ≤ n.val && n.val < 0x500

def unencodable (start : Nat) (c : CodePoint) (more : Nat) : Failure :=
  let place :=
    if more == 0 then " '".toText ++ escaped '\'' c ++ "' in position ".toText ++ Number.decimal start
    else "s in position ".toText ++ Number.decimal start ++ ch '-' :: Number.decimal (start + more)
  { kind := "UnicodeEncodeError"
    message := "'utf-8' codec can't encode character".toText ++ place ++ ": surrogates not allowed".toText }

def refusalOf (bad : CodePoint → Bool) (t : Text) : Option Failure :=
  let start := t.findIdx bad
  match t.drop start with
  | [] => none
  | c :: cs => some (unencodable start c (cs.takeWhile CodePoint.isLone).length)

def refusal? (t : Text) : Option Failure := refusalOf CodePoint.isLone t

def embeddedNull : Failure := { kind := "ValueError", message := "embedded null byte".toText }

def pathRefusal? (t : Text) : Option Failure :=
  (refusalOf (fun c => c.isLone && !isEscapedByte c) t).or
    (if t.contains '\x00' then some embeddedNull else none)

def nameSize (t : Text) : Nat := t.foldr (fun c n => (if isEscapedByte c then 1 else c.utf8Size) + n) 0

end Text
end CodeCompaction
