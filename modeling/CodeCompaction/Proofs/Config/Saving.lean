import Mathlib
import CodeCompaction.Config.Check
import CodeCompaction.Config.Store
import CodeCompaction.Proofs.FileTree.Growth
import CodeCompaction.Proofs.Json.Indented
import CodeCompaction.Proofs.Text.Blanks

namespace CodeCompaction.FileTree

theorem Tree.contains_of_read {t : Tree} {path : Text} {bytes : ByteArray} (h : t.read path = .ok bytes) :
    t.contains path = true := by
  obtain ⟨p, hlocate, hnode⟩ := Tree.read_eq_ok_iff.mp h
  rw [Tree.contains, Tree.at?, hlocate]
  simp only [hnode, Option.isSome_some]

end CodeCompaction.FileTree

namespace CodeCompaction.Config

open CodeCompaction.Json CodeCompaction.Text CodeCompaction.FileTree

variable {limit : NestingLimit} {c : Settings}

section Check

structure Settings.Stripped (c : Settings) : Prop where
  outputDir : strip c.outputDir = c.outputDir
  outputSuffix : strip c.outputSuffix = c.outputSuffix
  logFile : strip c.logFile = c.logFile

theorem strip_textField {fallback : Text} (h : strip fallback = fallback) (field : Text) (v : Value) :
    strip (textField field fallback v).value = (textField field fallback v).value := by
  cases v with
  | str t => exact strip_strip t
  | _ => exact h

theorem stripped_checkDraft (d : Draft) : (checkDraft d).value.Stripped :=
  ⟨strip_textField rfl _ _, strip_textField rfl _ _, strip_textField rfl _ _⟩

theorem textField_of_stripped {t : Text} (h : strip t = t) (field fallback : Text) :
    textField field fallback (.str t) = { value := t } := by
  rw [textField, h]
  rfl

theorem modeField_tag (m : Mode) : modeField (.ofString m.tag) = { value := m } := by
  cases m <;> rfl

theorem levelField_name (l : Log.LevelName) : levelField (.ofString l.name) = { value := l } := by
  cases l <;> rfl

theorem overDefaults_draft (c : Settings) (others : Draft) : overDefaults (c.draft ++ others) = c.draft := rfl

theorem checkDraft_draft (h : c.Stripped) : checkDraft c.draft = { value := c } := by
  have hdraft : overDefaults c.draft = c.draft := overDefaults_draft c []
  have hdir : value c.draft outputDirName = .str c.outputDir := rfl
  have hsuffix : value c.draft outputSuffixName = .str c.outputSuffix := rfl
  have hlog : value c.draft logFileName = .str c.logFile := rfl
  have hcount : value c.draft countTokensName = .bool c.countTokens := rfl
  have hmode : value c.draft modeName = .ofString c.mode.tag := rfl
  have hlevel : value c.draft logLevelName = .ofString c.logLevel.name := rfl
  simp only [checkDraft, hdraft, hdir, hsuffix, hlog, hcount, hmode, hlevel,
    textField_of_stripped h.outputDir, textField_of_stripped h.outputSuffix, textField_of_stripped h.logFile,
    modeField_tag, levelField_name, boolField]
  rfl

theorem merge_nil (base : Draft) : merge base [] = base := rfl

end Check

section Store

def storedMembers (c : Settings) : Draft := c.draft ++ [("version".toText, .str version)]

theorem stored_draft (c : Settings) : stored c.draft = .obj (storedMembers c) := rfl

theorem isCanonical_stored (c : Settings) : isCanonical (stored c.draft) = true := by
  have hnames : ((storedMembers c).map Prod.fst).Nodup := by
    rw [storedMembers, List.map_append, names_draft]
    decide
  rw [stored_draft, isCanonical, Bool.and_eq_true]
  exact ⟨by simpa using hnames, rfl⟩

theorem ofContent_content (c : Settings) :
    ofContent limit (unifyBreaks (content c.draft)) = .ok (.loaded (storedMembers c)) := by
  have hdepth : depth (stored c.draft) ≤ limit.levels := by
    have hone : depth (stored c.draft) = 1 := rfl
    have hleast := limit.least
    omega
  rw [ofContent, content, parse_unifyBreaks_indented (isCanonical_stored c) hdepth]
  rfl

theorem load_of_read {t : Tree} {current given : Text} (hscalar : (content c.draft).isScalar = true)
    (h : t.read (seenFrom current given) = .ok (encode (content c.draft))) :
    load limit t current given = .ok { value := c.draft, entries := [] } := by
  have hout : loadOutcome limit t (seenFrom current given) = .ok (.loaded (storedMembers c)) := by
    rw [loadOutcome, Tree.contains_of_read h]
    simp only [h, decode?_encode hscalar, ofContent_content, Bool.not_true, Bool.false_eq_true, if_false]
  rw [load, hout]
  rfl

theorem isScalar_content_iff {d : Draft} :
    (content d).isScalar = true ↔ (contentPieces d).findSome? refusal? = none := by
  rw [List.findSome?_eq_none_iff, content, ← flatten_pieces, Text.isScalar, List.all_flatten, List.all_eq_true]
  exact forall₂_congr fun p _ => refusal?_eq_none_iff.symm

theorem ok_saveFile {t : Tree} {current given : Text} {p : Place} (d : Draft)
    (hscalar : (content d).isScalar = true)
    (hmade : (t.makeDirs (Path.dirName (Path.absolute current given))).fault? = none)
    (hp : (t.makeDirs (Path.dirName (Path.absolute current given))).tree.writable (seenFrom current given) =
      .ok p) : (saveFile t current given d).ok = true := by
  rw [saveFile, hmade]
  simp only [writeContent, isScalar_content_iff.mp hscalar, Tree.write, hp]
  rfl

theorem not_ok_faulty {t : Tree} {f : Fault} {path : Text} : (Saved.faulty t f path).ok = false := by
  rw [Saved.faulty]
  split <;> rfl

theorem read_saveFile {t : Tree} {current given : Text} {d : Draft}
    (h : (saveFile t current given d).ok = true) :
    (content d).isScalar = true ∧
      (saveFile t current given d).tree.read (seenFrom current given) = .ok (encode (content d)) := by
  rw [saveFile] at h ⊢
  split at h
  · rw [not_ok_faulty] at h
    exact absurd h Bool.false_ne_true
  · rw [writeContent] at h ⊢
    split at h
    · rename_i hpieces
      refine ⟨isScalar_content_iff.mpr hpieces, ?_⟩
      split at h
      · rename_i t' hwrite
        exact Tree.read_write_self hwrite
      · rw [not_ok_faulty] at h
        exact absurd h Bool.false_ne_true
    · split at h
      · exact absurd h Bool.false_ne_true
      · rw [not_ok_faulty] at h
        exact absurd h Bool.false_ne_true

end Store

end CodeCompaction.Config
