import CodeCompaction.Proofs.Comment.Opacity
import CodeCompaction.Proofs.Minify.Indentation
import CodeCompaction.Proofs.Text.NormalForm

namespace CodeCompaction.Minify

open CodeCompaction.Text CodeCompaction.Literal CodeCompaction.Comment

section Layout

variable {limit : Json.NestingLimit} {ext t : Text} {g : Grammar} {s : Shielded}

def indentedKeys : List Text := ["py", "pyw", "pyx", "yaml", "yml", "sass"].map String.toText

theorem familyOf_of_indented (h : extensionKey ext ∈ indentedKeys) :
    familyOf ext = .whitespaceSignificant := by
  have hlists : ∀ key ∈ indentedKeys, lists whitespaceSignificantExtensions key = true := by decide
  rw [familyOf]
  exact if_pos (hlists _ h)

theorem protects_of_indented (h : extensionKey ext ∈ indentedKeys) (hg : grammarOf? ext = some g) :
    g.protects = true := by
  have hprotects : ∀ key ∈ indentedKeys, (grammars.lookup key).all (·.protects) = true := by
    decide +kernel
  have := hprotects _ h
  rwa [← grammarOf?, hg] at this

theorem keepIndentation_of_isTidy {u : Text} (h : IsTidy u) : keepIndentation u = strip u := by
  rw [keepIndentation, collapseBlankLines_dropTrailing, isTidy_iff.mp h]

theorem minify_of_indented (h : extensionKey ext ∈ indentedKeys) (hg : grammarOf? ext = some g)
    (hsize : withinSize t = true) (hs : shield? g.triple t = some s) :
    minify limit ext t = strip (remove ext t) := by
  have htidy : IsTidy (remove ext t) := by
    rw [remove_of_shield? hg (protects_of_indented h hg) hsize hs]
    exact isTidy_tidied _
  rw [minify_of_whitespaceSignificant (familyOf_of_indented h) hsize, keepIndentation_of_isTidy htidy]

theorem tidy_is_normal_form (t : Text) :
    rewrite (breakRun.pattern.replacing [ch '\n', '\n']) t = collapseBlankLines t ∧
    erase blanksAtEnd.pattern t = dropTrailing t ∧
    dropTrailing (collapseBlankLines t) = collapseBlankLines (dropTrailing t) ∧
    IsTidy (tidy t) ∧ tidy (tidy t) = tidy t ∧
    writtenLines (tidy t) = (writtenLines t).map (List.rdropWhile isInlineBlank) ∧
    ∀ ext g s, extensionKey ext ∈ indentedKeys → grammarOf? ext = some g → withinSize t = true →
      shield? g.triple t = some s → minify limit ext t = strip (remove ext t) := by
  refine ⟨rewrite_breakRun t, erase_blanksAtEnd t, ?_, ?_, ?_, ?_, ?_⟩
  · rw [collapseBlankLines_dropTrailing, ← tidy_eq_tidied, tidy]
  · rw [tidy_eq_tidied]
    exact isTidy_tidied t
  · rw [tidy_eq_tidied, tidy_eq_tidied, tidied_tidied]
  · rw [tidy_eq_tidied, writtenLines_tidied]
  · intro ext g s h hg hsize hs
    exact minify_of_indented h hg hsize hs

theorem tidy_is_normal_form_of_yaml :
    minify .usual "yaml".toText "\n \n\nkeys: # of 'a'  \n\t\n\n  - '#' \t\n\n\n  ".toText =
      strip (remove "yaml".toText "\n \n\nkeys: # of 'a'  \n\t\n\n  - '#' \t\n\n\n  ".toText) ∧
    strip (remove "yaml".toText "\n \n\nkeys: # of 'a'  \n\t\n\n  - '#' \t\n\n\n  ".toText) =
      "keys:\n\n  - '#'".toText := by
  let s : Shielded := {
    text := "\n \n\nkeys: # of \x00STR0END\x00  \n\t\n\n  - \x00STR1END\x00 \t\n\n\n  ".toText
    spans := #["'a'".toText, "'#'".toText]
    sentinel := '\x00' }
  refine ⟨(tidy_is_normal_form _).2.2.2.2.2.2 _ hashOnly s ?_ ?_ ?_ ?_, ?_⟩
  · decide
  · decide
  · decide
  · cbv
  · cbv

end Layout

end CodeCompaction.Minify
