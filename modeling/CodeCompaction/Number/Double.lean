namespace CodeCompaction.Number

def twoTo (n : Nat) : Nat := Nat.pow 2 n

def tenTo (n : Nat) : Nat := Nat.pow 10 n

def roundHalfEven (num den : Nat) : Nat :=
  let q := num / den
  let r := num % den
  if den < 2 * r || (2 * r == den && q % 2 == 1) then q + 1 else q

/-- A finite number `m * 2 ^ q` without its sign. The gap below it is half as wide when it is `narrow`. -/
structure Magnitude where
  m : Nat
  q : Int
  narrow : Bool
  deriving Repr, DecidableEq

inductive Parts where
  | nan
  | infinite
  | finite (size : Magnitude)
  deriving Repr, DecidableEq

def isNegative (x : Float) : Bool := x.toBits >>> 63 == 1

def parts (x : Float) : Parts :=
  let bits := x.toBits.toNat
  let field := bits / twoTo 52 % twoTo 11
  let fraction := bits % twoTo 52
  if field == 2047 then (if fraction == 0 then .infinite else .nan)
  else if field == 0 then .finite { m := fraction, q := -1074, narrow := false }
  else .finite
    { m := fraction + twoTo 52, q := Int.ofNat field - 1075, narrow := fraction == 0 && 1 < field }

def scaledRound (num den : Nat) (e : Int) : Nat :=
  roundHalfEven (num * twoTo (-e).toNat) (den * twoTo e.toNat)

def assemble (m : Nat) (e : Int) : UInt64 :=
  if m < twoTo 52 then UInt64.ofNat m
  else
    let field := (e + 1075).toNat
    if 2047 ≤ field || (field == 2046 && m == twoTo 53) then 0x7FF0000000000000
    else UInt64.ofNat (field * twoTo 52 + (m - twoTo 52))

def nearest (num den : Nat) : Float :=
  if num == 0 then 0.0
  else
    let e : Int := (num.log2 : Int) - den.log2 - 52
    let low := num * twoTo (-e).toNat < den * twoTo e.toNat * twoTo 52
    let e' := max (-1074) (if low then e - 1 else e)
    Float.ofBits (assemble (scaledRound num den e') e')

def signedNearest (negative : Bool) (num den : Nat) : Float :=
  if negative then -(nearest num den) else nearest num den

def quotient (a : Int) (b : Nat) : Float := signedNearest (a < 0) a.natAbs b

end CodeCompaction.Number
