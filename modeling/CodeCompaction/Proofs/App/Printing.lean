import CodeCompaction.Proofs.App.Exits
import CodeCompaction.Proofs.Config.Saving
import CodeCompaction.Proofs.Minify.CanonicalJson
import CodeCompaction.Proofs.Report.Reading

namespace CodeCompaction.App

open CodeCompaction.FileTree CodeCompaction.Report CodeCompaction.Text

namespace Phase

def summary (w : World) (ph : Phase) : Summary := summaryOf ph.settings (ph.reports w)

end Phase

variable {w : World} {argv : List Text} {ph : Phase} {final summary : Summary}
variable {c : Config.Settings} {o : Options} {s : Session} {is : List Item}

section Streams

theorem readStdin_content {t : Text} (hscalar : t.isScalar = true) :
    readStdin false (.content (encode t)) = .ok (unifyBreaks t) := by
  rw [readStdin, if_neg Bool.false_ne_true, decode?_encode hscalar]

end Streams

section Conclusion

end Conclusion

section Entries

end Entries

section Quoted

def quoted : Text := [ch '"', 'é', Char.ofNat 1]

def quotedWorld : World := { worldOf {} with stdin := .content (encode quoted) }

def quotedOptions (json : Bool) : Options :=
  { paths := [stdinMark, stdinMark], mode := some (some "raw".toText), noTokens := true, json := json
    useDefaults := true }

def quotedItem (content : Text) : Item :=
  { input := { record := { id := stdinMark, name := "stdin.txt".toText, content }, source := stdinMark }
    content }

def quotedSettings : Config.Settings := { mode := .raw, countTokens := false }

def quotedPhase (json : Bool) : Phase :=
  { options := quotedOptions json, settings := quotedSettings
    ready := (settle quotedWorld (quotedOptions json)).1
    results := [quoted, []].map fun t => { id := stdinMark, content := t } }

theorem found_quoted (json : Bool) : (quotedPhase json).found quotedWorld =
    { inputs := [(quotedItem quoted).input, (quotedItem []).input] } := by
  have hfirst : readStdin false quotedWorld.stdin = .ok quoted := readStdin_content (by decide)
  have hagain : readStdin true quotedWorld.stdin = .ok [] := rfl
  change collect quotedWorld _ none false [stdinMark, stdinMark] = _
  simp only [collect, BEq.rfl, if_true, hfirst, hagain]
  rfl

end Quoted

section Lone

def loneText : Text := "[\"\\ud800\"]".toText

def loneWorld : World := { worldOf {} with stdin := .content (encode loneText) }

def loneRecord (content : Text) : Batch.Record := { id := stdinMark, name := "stdin.json".toText, content }

def loneResult : Text := [ch '[', ch '"', .lone ⟨0, by decide⟩, ch '"', ch ']']

theorem readStdin_lone : readStdin false loneWorld.stdin = .ok loneText := readStdin_content (by decide)

theorem minify_loneText : Minify.minify .usual "json".toText loneText = loneResult := by
  have hparse : Json.parse .usual false loneText = .ok (.arr [.str [.lone 0]]) := by cbv
  exact (Minify.minify_json_of_parse (by decide) hparse rfl).trans (by cbv)

def loneItem : Item :=
  { input := { record := loneRecord loneText, source := stdinMark }, content := loneResult }

end Lone

end CodeCompaction.App
