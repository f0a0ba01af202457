import CodeCompaction.Number.Decimal
import CodeCompaction.Number.Shortest

namespace CodeCompaction.Number

def zeros (n : Nat) : Text := List.replicate n (ch '0')

def positional (exponent : Int) : Bool := -4 ≤ exponent && exponent < 16

def plainNotation (ds : Text) (p : Int) : Text :=
  if p ≤ 0 then "0.".toText ++ zeros (-p).toNat ++ ds
  else if ds.length ≤ p.toNat then ds ++ zeros (p.toNat - ds.length) ++ ".0".toText
  else ds.take p.toNat ++ ch '.' :: ds.drop p.toNat

def exponentText (x : Int) : Text :=
  let ds := decimal x.natAbs
  (if x < 0 then '-' else '+') :: (zeros (2 - ds.length) ++ ds)

def scientific (ds : Text) (x : Int) : Text :=
  match ds with
  | [] => []
  | [d] => d :: 'e' :: exponentText x
  | d :: rest => d :: ch '.' :: rest ++ ch 'e' :: exponentText x

def dropZeros (ds : Text) : Text := (ds.reverse.dropWhile (· == ch '0')).reverse

def magnitudeText (x : Magnitude) : Text :=
  if x.m == 0 then "0.0".toText
  else
    let (d, e) := shortest x
    let all := decimal d
    let p := e + all.length
    let ds := dropZeros all
    if positional (p - 1) then plainNotation ds p else scientific ds (p - 1)

def withSign (negative : Bool) (t : Text) : Text := if negative then '-' :: t else t

structure SpecialNames where
  nan : Text
  infinity : Text

def shortNames : SpecialNames := { nan := "nan".toText, infinity := "inf".toText }

def longNames : SpecialNames := { nan := "NaN".toText, infinity := "Infinity".toText }

def shortestText (names : SpecialNames) (x : Float) : Text :=
  match parts x with
  | .nan => names.nan
  | .infinite => withSign (isNegative x) names.infinity
  | .finite s => withSign (isNegative x) (magnitudeText s)

def fixedMagnitude (places : Nat) (x : Magnitude) : Text :=
  let n := roundHalfEven (x.m * twoTo x.q.toNat * tenTo places) (twoTo (-x.q).toNat)
  let ds := decimal n
  let all := zeros (places + 1 - ds.length) ++ ds
  let cut := all.length - places
  if places == 0 then all else all.take cut ++ ch '.' :: all.drop cut

def fixed (places : Nat) (x : Float) : Text :=
  match parts x with
  | .nan => shortNames.nan
  | .infinite => withSign (isNegative x) shortNames.infinity
  | .finite s => withSign (isNegative x) (fixedMagnitude places s)

def percent (x : Float) : Text := fixed 0 (x * 100) ++ [ch '%']

end CodeCompaction.Number
