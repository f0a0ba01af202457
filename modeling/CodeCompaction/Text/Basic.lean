import CodeCompaction.Text.CodePoint

namespace CodeCompaction

namespace Text

def byteLength (t : Text) : Nat := t.foldl (fun n c => n + c.utf8Size) 0

theorem foldl_utf8Size (t : Text) (n : Nat) :
    t.foldl (fun n c => n + c.utf8Size) n = n + byteLength t := by
  induction t generalizing n with
  | nil => simp [byteLength]
  | cons c t ih =>
      simp only [List.foldl_cons, byteLength]
      rw [ih (n + c.utf8Size), ih (0 + c.utf8Size)]
      omega

@[simp] theorem byteLength_nil : byteLength [] = 0 := rfl

@[simp] theorem byteLength_cons (c : CodePoint) (t : Text) :
    byteLength (c :: t) = c.utf8Size + byteLength t := by
  rw [byteLength, List.foldl_cons, foldl_utf8Size]
  omega

@[simp] theorem byteLength_append (s t : Text) :
    byteLength (s ++ t) = byteLength s + byteLength t := by
  induction s with
  | nil => simp
  | cons c s ih => simp [ih]; omega

def blankRanges : List (Nat × Nat) :=
  [(0x20, 0x20), (0x09, 0x0D), (0x1C, 0x1F), (0x85, 0x85), (0xA0, 0xA0), (0x1680, 0x1680),
   (0x2000, 0x200A), (0x2028, 0x2029), (0x202F, 0x202F), (0x205F, 0x205F), (0x3000, 0x3000)]

def isBlank (c : CodePoint) : Bool := inRanges blankRanges c.toNat

def isInlineBlank (c : CodePoint) : Bool := c == ' ' || c == '\t'

theorem isBlank_of_isInlineBlank {c : CodePoint} (h : isInlineBlank c = true) : isBlank c = true := by
  simp only [isInlineBlank, Bool.or_eq_true, beq_iff_eq] at h
  rcases h with rfl | rfl <;> decide

def isQuote (c : CodePoint) : Bool := c == '"' || c == '\'' || c == '\x60'

def lstrip (t : Text) : Text := t.dropWhile isBlank

def rstrip (t : Text) : Text := (t.reverse.dropWhile isBlank).reverse

def strip (t : Text) : Text := rstrip (lstrip t)

def isAllBlank (t : Text) : Bool := t.all isBlank

def pieces (sep : CodePoint → Bool) : Text → List Text
  | [] => [[]]
  | c :: cs =>
      if sep c then [] :: pieces sep cs
      else match pieces sep cs with
        | [] => [[c]]
        | p :: ps => (c :: p) :: ps

theorem pieces_ne_nil (sep : CodePoint → Bool) (t : Text) : pieces sep t ≠ [] := by
  cases t with
  | nil => simp [pieces]
  | cons c cs =>
      simp only [pieces]
      split
      · simp
      · split <;> simp

def lines (t : Text) : List Text := pieces (· == '\n') t

def unlines (ls : List Text) : Text := List.intercalate ['\n'] ls

def words (t : Text) : List Text := (pieces isBlank t).filter (fun w => !w.isEmpty)

def unwords (ws : List Text) : Text := List.intercalate [' '] ws

end Text
end CodeCompaction
