import CodeCompaction.Number.Double

namespace CodeCompaction.Number

def decimalLe (a : Nat) (e : Int) (b : Nat) (f : Int) : Bool :=
  a * tenTo e.toNat * twoTo (-f).toNat ≤ b * twoTo f.toNat * tenTo (-e).toNat

def binaryLe (b : Nat) (f : Int) (a : Nat) (e : Int) : Bool :=
  b * twoTo f.toNat * tenTo (-e).toNat ≤ a * tenTo e.toNat * twoTo (-f).toNat

def readsBack (x : Magnitude) (d : Nat) (e : Int) : Bool :=
  let f := x.q - 2
  let low := 4 * x.m - (if x.narrow then 1 else 2)
  let high := 4 * x.m + 2
  if x.m % 2 == 0 then binaryLe low f d e && decimalLe d e high f
  else !decimalLe d e low f && !binaryLe high f d e

def scale (x : Magnitude) : Int :=
  let k := (((x.m.log2 : Int) + x.q) * 30103) / 100000
  if !decimalLe 1 k x.m x.q then k
  else if !decimalLe 1 (k + 1) x.m x.q then k + 1
  else k + 2

def wholeOver (x : Magnitude) (e : Int) : Nat :=
  (x.m * twoTo x.q.toNat * tenTo (-e).toNat) / (twoTo (-x.q).toNat * tenTo e.toNat)

def upperNearer (x : Magnitude) (d : Nat) (e : Int) : Bool :=
  let middle := 2 * d + 1
  let above := decimalLe middle e x.m (x.q + 1)
  let below := binaryLe x.m (x.q + 1) middle e
  above && (!below || d % 2 == 1)

def withDigits? (x : Magnitude) (k : Int) (n : Nat) : Option (Nat × Int) :=
  let e := k - n
  let d := wholeOver x e
  let lower := readsBack x d e
  let upper := readsBack x (d + 1) e
  if lower && upper then some (if upperNearer x d e then d + 1 else d, e)
  else if lower then some (d, e)
  else if upper then some (d + 1, e)
  else none

def shortest (x : Magnitude) : Nat × Int :=
  let k := scale x
  ((List.range 17).findSome? (fun i => withDigits? x k (i + 1))).getD (wholeOver x (k - 17), k - 17)

end CodeCompaction.Number
