import CodeCompaction.Literal.Scan
import CodeCompaction.Number.Decimal
import CodeCompaction.Text.Rewrite

namespace CodeCompaction.Literal

open CodeCompaction.Text

def sentinels : List CodePoint := (List.range 9 ++ (List.range 14).map (· + 14)).map CodePoint.ofNat

theorem sentinels_not_blank : ∀ c ∈ sentinels, isBlank c = false := by
  have h : sentinels.all (fun c => !isBlank c) = true := by decide
  intro c hc
  simpa using List.all_eq_true.1 h c hc

def defaultSentinel : CodePoint := '\x00'

def chooseSentinel? (t : Text) : Option CodePoint := sentinels.find? (fun c => !t.contains c)

theorem not_mem_of_chooseSentinel? {t : Text} {c : CodePoint} (h : chooseSentinel? t = some c) : c ∉ t := by
  have := List.find?_some h
  simpa using this

def openTag : Text := ['S', 'T', 'R']

def closeTag : Text := ['E', 'N', 'D']

def enclosed (mark digits : Text) : Text := mark ++ openTag ++ digits ++ closeTag ++ mark

def placeholder (mark : Text) (i : Nat) : Text := enclosed mark (Number.decimal i)

def after? (front t : Text) : Option Text :=
  if front.isPrefixOf t then some (t.drop front.length) else none

def readPlaceholder? (mark t : Text) : Option (Nat × Nat) := do
  let t₁ ← after? (mark ++ openTag) t
  let digits := t₁.takeWhile isDecimalDigit
  if digits.isEmpty then none
  else
    let _ ← after? (closeTag ++ mark) (t₁.drop digits.length)
    some (decimalValue digits, 2 * mark.length + digits.length + 6)

def restoring (mark : Text) (spans : Array Text) : Substitution := fun _ t =>
  (readPlaceholder? mark t).map (fun (i, n) => (n, (spans[i]?).getD (t.take n)))

def unshield (mark : Text) (spans : Array Text) (t : Text) : Text :=
  if spans.isEmpty then t else rewrite (restoring mark spans) t

structure Shielded where
  text : Text
  spans : Array Text
  sentinel : CodePoint
  deriving Repr

def Shielded.mark (s : Shielded) : Text := [s.sentinel]

def Shielded.restore (s : Shielded) (t : Text) : Text := unshield s.mark s.spans t

def renderFrom (mark : Text) : Nat → List Piece → Text
  | _, [] => []
  | i, .plain c :: ps => c :: renderFrom mark i ps
  | i, .literal _ :: ps => placeholder mark i ++ renderFrom mark (i + 1) ps

def shieldWith (sentinel : CodePoint) (triple : Bool) (t : Text) : Shielded :=
  let ps := split triple t
  { text := renderFrom [sentinel] 0 ps
    spans := (ps.filterMap Piece.span?).toArray
    sentinel }

def shield? (triple : Bool) (t : Text) : Option Shielded :=
  if t.any isQuote then (chooseSentinel? t).map (shieldWith · triple t)
  else some { text := t, spans := #[], sentinel := defaultSentinel }

def collisionMessage : Text := "No free control character available for literal placeholders.".toText

end CodeCompaction.Literal
