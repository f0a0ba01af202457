import CodeCompaction.Proofs.Comment.Deletion
import CodeCompaction.Proofs.Comment.LineMarks
import CodeCompaction.Proofs.Text.NormalForm

namespace CodeCompaction.Comment

open CodeCompaction.Text CodeCompaction.Literal

theorem ToLineEnd.erase_tidied {p : Pattern} {t : Text} (hp : ToLineEnd p) (h : erase p t = t) :
    erase p (tidied t) = tidied t := by
  rw [hp.erase_eq_self_iff_lines] at h ⊢
  intro l hl
  rcases mem_lines_tidied hl with rfl | ⟨l₀, hl₀, rfl⟩
  · rfl
  · exact hp.rewriteFrom_front (newline_not_mem_of_mem_lines hl₀) (List.rdropWhile_prefix ..) (h l₀ hl₀)

theorem newline_not_mem_openers :
    ∀ p ∈ grammars, ∀ m ∈ p.2.line?, ∀ o ∈ m.openers, ch '\n' ∉ o := by
  decide +kernel

section Removal

variable {ext t : Text} {g : Grammar} {m : LineMark}

theorem toLineEnd_of_grammarOf? (hg : grammarOf? ext = some g) (hm : g.line? = some m) :
    ToLineEnd m.pattern :=
  toLineEnd_pattern (newline_not_mem_openers _ (mem_grammars_of_grammarOf? hg) m hm)

theorem eraseLines_delete (hm : g.line? = some m) (hp : ToLineEnd m.pattern) (s? : Option Shielded) (t : Text) :
    erase m.pattern (delete g s? t) = delete g s? t := by
  simp only [delete, eraseLines, hm]
  exact hp.erase_erase _

-- the extensions that have line comments and hide no literals
example : (grammars.filter fun p => p.2.line?.isSome && !p.2.protects).map Prod.fst =
    ["ini", "hs", "clj", "cljs", "lisp", "el", "scm", "ps1", "psm1", "bat", "cmd"].map String.toText := by
  decide +kernel

theorem no_line_comment_left (hg : grammarOf? ext = some g) (hm : g.line? = some m)
    (hsize : withinSize t = true) :
    (g.protects = true → ∀ s, shield? g.triple t = some s →
      spans m.pattern (delete g (some s) s.text) = []) ∧
    (g.protects = false → spans m.pattern (delete g none t) = [] ∧ spans m.pattern (remove ext t) = []) := by
  have hp := toLineEnd_of_grammarOf? hg hm
  have hdelete (s? : Option Shielded) (t : Text) := (erase_eq_self_iff _ _).mp (eraseLines_delete hm hp s? t)
  refine ⟨fun _ s _ => hdelete _ _, fun hprotects => ⟨hdelete _ _, ?_⟩⟩
  rw [remove_of_unprotected hg hprotects hsize, ← erase_eq_self_iff]
  exact hp.erase_tidied (eraseLines_delete hm hp none t)

theorem no_line_comment_left_of_marks :
    spans slashes.pattern (delete slashStar (some {
      text := "a = \x00STR0END\x00; /*b*// c // d\n".toText
      spans := #["'//'".toText]
      sentinel := '\x00' }) "a = \x00STR0END\x00; /*b*// c // d\n".toText) = [] ∧
    spans (LineMark.lineStart ["REM".toText, "rem".toText, "::".toText]).pattern
      (remove "bat".toText "a\n \tREM b\n :: c\nrem d\n\n\n :x :: e".toText) = [] := by
  constructor
  · have happly := @no_line_comment_left "js".toText "a = '//'; /*b*// c // d\n".toText slashStar slashes
      (by decide) rfl (by decide)
    exact happly.1 rfl _ (by cbv)
  · exact ((no_line_comment_left
      (g := { line? := some (.lineStart ["REM".toText, "rem".toText, "::".toText]) })
      (by decide) rfl (by decide)).2 rfl).2

end Removal

end CodeCompaction.Comment
