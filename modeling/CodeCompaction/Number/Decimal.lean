import CodeCompaction.Text.Basic

namespace CodeCompaction.Number

def decimal (n : Nat) : Text := (Nat.toDigits 10 n).map ch

theorem exists_of_mem_decimal {c : CodePoint} {n : Nat} (h : c ∈ decimal n) :
    ∃ a : Char, a.isDigit = true ∧ ch a = c := by
  obtain ⟨a, ha, rfl⟩ := List.mem_map.mp h
  exact ⟨a, Nat.isDigit_of_mem_toDigits (by decide) (by decide) ha, rfl⟩

theorem decimal_ne_nil (n : Nat) : decimal n ≠ [] := by
  simp [decimal, Nat.toDigits_ne_nil]

def signed (i : Int) : Text := if i < 0 then '-' :: decimal i.natAbs else decimal i.natAbs

def explicitlySigned (i : Int) : Text := if i < 0 then signed i else '+' :: signed i

def groupRev : Text → Text
  | a :: b :: c :: d :: ds => a :: b :: c :: ',' :: groupRev (d :: ds)
  | ds => ds

def grouped (n : Nat) : Text := (groupRev (decimal n).reverse).reverse

def signedGrouped (i : Int) : Text := if i < 0 then '-' :: grouped i.natAbs else grouped i.natAbs

def explicitlySignedGrouped (i : Int) : Text :=
  if i < 0 then signedGrouped i else '+' :: signedGrouped i

end CodeCompaction.Number

namespace CodeCompaction.Text

def decimalZeros : List Nat := [
    0x0030, 0x0660, 0x06F0, 0x07C0, 0x0966, 0x09E6, 0x0A66, 0x0AE6, 0x0B66, 0x0BE6, 0x0C66,
    0x0CE6, 0x0D66, 0x0DE6, 0x0E50, 0x0ED0, 0x0F20, 0x1040, 0x1090, 0x17E0, 0x1810, 0x1946,
    0x19D0, 0x1A80, 0x1A90, 0x1B50, 0x1BB0, 0x1C40, 0x1C50, 0xA620, 0xA8D0, 0xA900, 0xA9D0,
    0xA9F0, 0xAA50, 0xABF0, 0xFF10, 0x104A0, 0x10D30, 0x11066, 0x110F0, 0x11136, 0x111D0,
    0x112F0, 0x11450, 0x114D0, 0x11650, 0x116C0, 0x11730, 0x118E0, 0x11950, 0x11C50, 0x11D50,
    0x11DA0, 0x16A60, 0x16AC0, 0x16B50, 0x1D7CE, 0x1D7D8, 0x1D7E2, 0x1D7EC, 0x1D7F6, 0x1E140,
    0x1E2F0, 0x1E950, 0x1FBF0]

def digitValue? (c : CodePoint) : Option Nat :=
  (decimalZeros.find? (fun z => z ≤ c.toNat && c.toNat ≤ z + 9)).map (c.toNat - ·)

def isDecimalDigit (c : CodePoint) : Bool := (digitValue? c).isSome

def decimalValue (ds : List CodePoint) : Nat :=
  ds.foldl (fun n d => 10 * n + (digitValue? d).getD 0) 0

end CodeCompaction.Text
