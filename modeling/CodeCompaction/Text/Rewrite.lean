import CodeCompaction.Text.Basic

namespace CodeCompaction.Text

abbrev Pattern := Bool → Text → Option Nat

abbrev Substitution := Bool → Text → Option (Nat × Text)

def rewriteFrom (m : Substitution) : Bool → Nat → Text → Text
  | _, _, [] => []
  | _, k + 1, c :: cs => rewriteFrom m (c == '\n') k cs
  | b, 0, c :: cs =>
      match m b (c :: cs) with
      | some (k + 1, out) => out ++ rewriteFrom m (c == '\n') k cs
      | _ => c :: rewriteFrom m (c == '\n') 0 cs

def rewrite (m : Substitution) (t : Text) : Text := rewriteFrom m true 0 t

def Pattern.erasing (p : Pattern) : Substitution := fun b t => (p b t).map (·, [])

def erase (p : Pattern) (t : Text) : Text := rewrite p.erasing t

def spansFrom (p : Pattern) : Bool → Nat → Nat → Text → List (Nat × Nat)
  | _, _, _, [] => []
  | _, k + 1, pos, c :: cs => spansFrom p (c == '\n') k (pos + 1) cs
  | b, 0, pos, c :: cs =>
      match p b (c :: cs) with
      | some (k + 1) => (pos, pos + (k + 1)) :: spansFrom p (c == '\n') k (pos + 1) cs
      | _ => spansFrom p (c == '\n') 0 (pos + 1) cs

def spans (p : Pattern) (t : Text) : List (Nat × Nat) := spansFrom p true 0 0 t

theorem rewriteFrom_nil (m : Substitution) (b : Bool) (k : Nat) : rewriteFrom m b k [] = [] := by
  cases k <;> rfl

end CodeCompaction.Text
