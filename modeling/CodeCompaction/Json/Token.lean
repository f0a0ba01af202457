import CodeCompaction.Json.Basic
import CodeCompaction.Number.Double

namespace CodeCompaction.Json

open CodeCompaction.Number

inductive Token where
  | openArray
  | closeArray
  | openObject
  | closeObject
  | comma
  | colon
  | scalar (v : Value)
  | text (t : Text)
  | special (x : Float)
  | fault

def isSpace (c : CodePoint) : Bool := c == ' ' || c == '\t' || c == '\n' || c == '\r'

def hexValue? (c : CodePoint) : Option Nat :=
  let n := c.toNat
  if '0'.toNat ≤ n && n ≤ '9'.toNat then some (n - '0'.toNat)
  else if 'a'.toNat ≤ n && n ≤ 'f'.toNat then some (n - 'a'.toNat + 10)
  else if 'A'.toNat ≤ n && n ≤ 'F'.toNat then some (n - 'A'.toNat + 10)
  else none

def hexNumber? (ds : List CodePoint) : Option Nat :=
  ds.foldlM (fun n d => (hexValue? d).map (16 * n + ·)) 0

def shortEscapes : List (CodePoint × Nat) :=
  [('"', 0x22), ('\\', 0x5C), ('/', 0x2F), ('b', 0x08), ('f', 0x0C), ('n', 0x0A), ('r', 0x0D), ('t', 0x09)]

inductive Written where
  | plain (c : CodePoint)
  | unit (u : Nat)
  deriving Repr, DecidableEq

def stringUnits : Text → Option (List Written × Nat)
  | [] => none
  | '"' :: _ => some ([], 1)
  | '\\' :: 'u' :: a :: b :: c :: d :: cs => do
      let u ← hexNumber? [a, b, c, d]
      let (us, n) ← stringUnits cs
      some (.unit u :: us, n + 6)
  | '\\' :: e :: cs => do
      let u ← shortEscapes.lookup e
      let (us, n) ← stringUnits cs
      some (.unit u :: us, n + 2)
  | c :: cs =>
      if c.toNat < 0x20 || c == '\\' then none
      else (stringUnits cs).map (fun (us, n) => (.plain c :: us, n + 1))

def isHighUnit (u : Nat) : Bool := 0xD800 ≤ u && u < 0xDC00

def isLowUnit (u : Nat) : Bool := 0xDC00 ≤ u && u < 0xE000

def ofUnits : List Written → Text
  | [] => []
  | .plain c :: us => c :: ofUnits us
  | .unit u :: .unit v :: us =>
      if isHighUnit u && isLowUnit v then
        CodePoint.ofNat (0x10000 + (u - 0xD800) * 0x400 + (v - 0xDC00)) :: ofUnits us
      else CodePoint.ofNat u :: ofUnits (.unit v :: us)
  | .unit u :: us => CodePoint.ofNat u :: ofUnits us

def stringToken (t : Text) : Token × Nat :=
  match stringUnits t with
  | none => (.fault, 0)
  | some (us, n) => (.text (ofUnits us), n)

def isDigit (c : CodePoint) : Bool := '0'.toNat ≤ c.toNat && c.toNat ≤ '9'.toNat

def digitsValue (ds : Text) : Nat := ds.foldl (fun n d => 10 * n + (d.toNat - '0'.toNat)) 0

def digitRun (t : Text) : Text := t.takeWhile isDigit

def wholeDigits (t : Text) : Text :=
  match t with
  | '0' :: _ => ['0']
  | _ => digitRun t

def fractionDigits (t : Text) : Text :=
  match t with
  | '.' :: cs => digitRun cs
  | _ => []

def exponentPart (t : Text) : Option (Int × Nat) :=
  match t with
  | e :: cs =>
      if e == 'e' || e == 'E' then
        let sign : Text := match cs with
          | '-' :: _ => [ch '-']
          | '+' :: _ => [ch '+']
          | _ => []
        let ds := digitRun (cs.drop sign.length)
        if ds.isEmpty then none
        else
          let n : Int := digitsValue ds
          some (if sign == [ch '-'] then -n else n, 1 + sign.length + ds.length)
      else none
  | [] => none

def maxDigits : Nat := 4300

def decimalDouble (negative : Bool) (ds : Text) (e : Int) : Float :=
  let counted := ds.dropWhile (· == ch '0')
  let magnitude := e + counted.length
  let m := digitsValue counted
  let x :=
    if counted.isEmpty || magnitude < -330 then 0.0
    else if 310 < magnitude then Float.ofBits 0x7FF0000000000000
    else nearest (m * tenTo e.toNat) (tenTo (-e).toNat)
  if negative then -x else x

def numberToken (negative : Bool) (t : Text) : Token × Nat :=
  let whole := wholeDigits t
  if whole.isEmpty then (.fault, 0)
  else
    let t₁ := t.drop whole.length
    let fraction := fractionDigits t₁
    let fractionLength := if fraction.isEmpty then 0 else fraction.length + 1
    let exponent? := exponentPart (t₁.drop fractionLength)
    if fraction.isEmpty && exponent?.isNone then
      if maxDigits < whole.length then (.fault, 0)
      else
        let n : Int := digitsValue whole
        (.scalar (.int (if negative then -n else n)), whole.length)
    else
      let (e, k) := exponent?.getD (0, 0)
      (.scalar (.real (decimalDouble negative (whole ++ fraction) (e - fraction.length))),
        whole.length + fractionLength + k)

def infinity : Float := Float.ofBits 0x7FF0000000000000

def notANumber : Float := Float.ofBits 0x7FF8000000000000

def keywords : List (Text × Token) := [
  ("null".toText, .scalar .null),
  ("true".toText, .scalar (.bool true)),
  ("false".toText, .scalar (.bool false)),
  ("NaN".toText, .special notANumber),
  ("Infinity".toText, .special infinity),
  ("-Infinity".toText, .special (-infinity))]

def tokenAt (c : CodePoint) (cs : Text) : Token × Nat :=
  if c == '[' then (.openArray, 0)
  else if c == ']' then (.closeArray, 0)
  else if c == '\x7b' then (.openObject, 0)
  else if c == '\x7d' then (.closeObject, 0)
  else if c == ',' then (.comma, 0)
  else if c == ':' then (.colon, 0)
  else if c == '"' then stringToken cs
  else match keywords.find? (fun k => k.1.isPrefixOf (c :: cs)) with
    | some (w, k) => (k, w.length - 1)
    | none =>
        if c == '-' then numberToken true cs
        else
          let (k, n) := numberToken false (c :: cs)
          (k, n - 1)

def tokensFrom : Nat → Text → List Token
  | _, [] => []
  | k + 1, _ :: cs => tokensFrom k cs
  | 0, c :: cs =>
      if isSpace c then tokensFrom 0 cs
      else
        match tokenAt c cs with
        | (.fault, _) => [.fault]
        | (k, n) => k :: tokensFrom n cs

def tokens (t : Text) : List Token := tokensFrom 0 t

theorem tokens_space {c : CodePoint} (h : isSpace c = true) (t : Text) : tokens (c :: t) = tokens t := by
  simp [tokens, tokensFrom, h]

end CodeCompaction.Json
