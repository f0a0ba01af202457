namespace CodeCompaction

/-- A character, or a surrogate that stands alone. -/
inductive CodePoint where
  | ch (c : Char)
  | lone (n : Fin 0x800)
  deriving DecidableEq, Repr

export CodePoint (ch)

abbrev Text := List CodePoint

instance : Coe Char CodePoint := ⟨CodePoint.ch⟩

namespace CodePoint

def toNat : CodePoint → Nat
  | ch c => c.toNat
  | lone n => 0xD800 + n

instance : Hashable CodePoint := ⟨fun c => hash c.toNat⟩

def ofNat (n : Nat) : CodePoint :=
  if h : 0xD800 ≤ n ∧ n < 0xE000 then lone ⟨n - 0xD800, by omega⟩ else ch (Char.ofNat n)

def isLone : CodePoint → Bool
  | ch _ => false
  | lone _ => true

def utf8Size : CodePoint → Nat
  | ch c => c.utf8Size
  | lone _ => 3

def bytes : CodePoint → List UInt8
  | ch c => String.utf8EncodeChar c
  | lone n => [0xED, (0xA0 + n.val / 64).toUInt8, (0x80 + n.val % 64).toUInt8]

@[simp] theorem toNat_ch (c : Char) : (ch c).toNat = c.toNat := rfl

@[simp] theorem utf8Size_ch (c : Char) : (ch c).utf8Size = c.utf8Size := rfl

theorem utf8Size_pos (c : CodePoint) : 0 < c.utf8Size := by
  cases c with
  | ch c => exact c.utf8Size_pos
  | lone n => exact Nat.zero_lt_succ 2

theorem ofNat_toNat (c : CodePoint) : ofNat c.toNat = c := by
  cases c with
  | ch c =>
      have hvalid : ¬ (0xD800 ≤ c.toNat ∧ c.toNat < 0xE000) := by
        have := c.valid
        simp only [UInt32.isValidChar, Nat.isValidChar] at this
        change _ ∨ _ at this
        simp only [Char.toNat]
        omega
      rw [toNat, ofNat, dif_neg hvalid, Char.ofNat_toNat]
  | lone n =>
      rw [toNat, ofNat, dif_pos (by omega)]
      simp

end CodePoint

namespace Text

def inRanges : List (Nat × Nat) → Nat → Bool
  | [], _ => false
  | (lo, hi) :: rs, n => (lo ≤ n && n ≤ hi) || inRanges rs n

end Text
end CodeCompaction

@[simp] def String.toText (s : String) : CodeCompaction.Text := s.toList.map .ch
