import Mathlib
import CodeCompaction.Proofs.App.Reach
import CodeCompaction.Proofs.Config.Saving

namespace CodeCompaction.App

open CodeCompaction.FileTree

variable {w : World} {o : Options} {c : Config.Settings} {s : Session}

def World.configFile (w : World) : Text := seenFrom w.current (Config.defaultPath w.env w.current)

def World.loadConfig (w : World) (t : Tree) : Except Failure (Logged Config.Draft) :=
  let (t, path) := Config.resolve t w.env w.current []
  Config.load w.limit t w.current path

def World.saveConfig (w : World) (t : Tree) (c : Config.Settings) : Config.Saved :=
  let (t, path) := Config.resolve t w.env w.current []
  Config.saveFile t w.current path c.draft

section Saved

theorem loadConfig_eq (w : World) (t : Tree) : w.loadConfig t =
    Config.load w.limit (Config.withDataDir t w.env w.current) w.current (Config.defaultPath w.env w.current) := rfl

theorem saveConfig_eq (w : World) (t : Tree) (c : Config.Settings) : w.saveConfig t c =
    Config.saveFile (Config.withDataDir t w.env w.current) w.current (Config.defaultPath w.env w.current)
      c.draft := rfl

theorem snd_reportSaved_iff {path : Text} {out : Config.Saved} :
    (reportSaved s path out).2 = .ok true ↔ out.ok = true := by
  rw [reportSaved]
  split
  · rename_i hraised
    simp [Config.Saved.ok, hraised]
  · cases out.ok <;> simp

theorem save_eq (w : World) (c : Config.Settings) (s : Session) : save w c s =
    reportSaved (s.withTree (w.saveConfig s.tree c).tree) (Config.defaultPath w.env w.current)
      (w.saveConfig s.tree c) := rfl

theorem snd_save_iff : (save w c s).2 = .ok true ↔ (w.saveConfig s.tree c).ok = true := by
  rw [save_eq, snd_reportSaved_iff]

theorem read_saveConfig {t : Tree} (h : (w.saveConfig t c).ok = true) :
    (Config.content c.draft).isScalar = true ∧
      (w.saveConfig t c).tree.read w.configFile = .ok (encode (Config.content c.draft)) := by
  rw [saveConfig_eq] at h ⊢
  exact Config.read_saveFile h

theorem loadConfig_of_read {t : Tree} (hscalar : (Config.content c.draft).isScalar = true)
    (h : t.read w.configFile = .ok (encode (Config.content c.draft))) :
    w.loadConfig t = .ok { value := c.draft, entries := [] } := by
  rw [loadConfig_eq]
  exact Config.load_of_read hscalar ((Tree.adds_makeDirs t _).read h)

theorem effective_of_no_overrides (hplain : o.overrides w.defaultLog = []) (hc : c.Stripped) :
    effective w o c.draft = { value := c, warnings := [] } := by
  rw [effective, hplain, Config.merge_nil, Config.checkDraft_draft hc]

end Saved

theorem saved_settings_come_back (w w' : World) (o o' : Options) (base : Config.Draft)
    (hsave : (save w (effective w o base).value s).2 = .ok true)
    (hkept : w'.tree.read w'.configFile =
      (w.saveConfig s.tree (effective w o base).value).tree.read w.configFile)
    (hdefaults : o'.useDefaults = false) (hplain : o'.overrides w'.defaultLog = []) :
    let c := (effective w o base).value
    w'.loadConfig w'.tree = .ok { value := c.draft, entries := [] } ∧
      c.draft.map Prod.fst = Config.names ∧
      effective w' o' c.draft = { value := c, warnings := [] } ∧
      (∀ c', (settle w' o').2 = .ok c' → c' = c) ∧
      (c.logFile = [] ∨ (Path.absolute w'.current c.logFile).pathRefusal? = none → (settle w' o').2 = .ok c) := by
  intro c
  obtain ⟨hscalar, hread⟩ := read_saveConfig (snd_save_iff.mp hsave)
  have hload : w'.loadConfig w'.tree = .ok { value := c.draft, entries := [] } :=
    loadConfig_of_read hscalar (hkept.trans hread)
  have heffective : effective w' o' c.draft = { value := c, warnings := [] } :=
    effective_of_no_overrides hplain (Config.stripped_checkDraft _)
  obtain ⟨s', hbase⟩ := baseDraft_of_load hdefaults hload
  refine ⟨hload, Config.names_draft c, heffective, fun c' hset => ?_, fun hlegal => ?_⟩
  · obtain ⟨s'', base', hbase', hc', -⟩ := settle_eq_ok (Prod.ext rfl hset)
    obtain ⟨-, hsame⟩ := Prod.mk.inj (hbase'.symm.trans hbase)
    obtain rfl := Except.ok.inj hsame
    rw [hc', heffective]
  · exact settle_of_legal hbase (by rw [heffective]) hlegal

section Odd

def homeTree : Tree := { entries := [([[ch 'h']], .dir)] }

def homeWorld (t : Tree) : World :=
  { tree := t
    current := [ch '/', ch 'h']
    env := { bindings := [(Path.homeVariable, [ch '/', ch 'h'])] }
    stdin := .content .empty
    refuses := Text.refusal?
    vocabularies := fun _ => .error (.unavailable [])
    transform := Batch.byMode .usual
    limit := .usual
    time := [] }

def oddText : Text := [ch '"', ch '\\', ch '\n', ch '\r', ch '\x01', ch '\u2028', ch '"']

def oddOptions : Options :=
  { mode := some (some " RAW ".toText), outputDir := some (some (ch ' ' :: oddText))
    outputSuffix := some (some oddText), useDefaults := true }

def oddSettings : Config.Settings := { mode := .raw, outputDir := oddText, outputSuffix := oddText }

def oddTree : Tree := ((homeWorld homeTree).saveConfig homeTree oddSettings).tree

theorem effective_odd :
    (effective (homeWorld homeTree) oddOptions Config.defaults.draft).value = oddSettings := by
  cbv

theorem saved_odd_settings_come_back :
    (homeWorld oddTree).loadConfig oddTree = .ok { value := oddSettings.draft, entries := [] } ∧
      (settle (homeWorld oddTree) {}).2 = .ok oddSettings := by
  have hstart : (startSession (homeWorld homeTree)).tree = homeTree := rfl
  have hok : ((homeWorld homeTree).saveConfig homeTree oddSettings).ok = true := by
    rw [saveConfig_eq]
    exact Config.ok_saveFile (p := [[ch 'h'], Config.dataDirName, Config.fileName]) _ (by cbv) (by cbv) (by cbv)
  have hsave : (save (homeWorld homeTree) (effective (homeWorld homeTree) oddOptions Config.defaults.draft).value
      (startSession (homeWorld homeTree))).2 = .ok true := by
    rw [snd_save_iff, effective_odd, hstart, hok]
  have hkept : (homeWorld oddTree).tree.read (homeWorld oddTree).configFile =
      ((homeWorld homeTree).saveConfig (startSession (homeWorld homeTree)).tree
        (effective (homeWorld homeTree) oddOptions Config.defaults.draft).value).tree.read
          (homeWorld homeTree).configFile := by
    rw [effective_odd, hstart]
    rfl
  obtain ⟨hload, -, -, -, hagain⟩ :=
    saved_settings_come_back (homeWorld homeTree) (homeWorld oddTree) oddOptions {} Config.defaults.draft hsave hkept
      rfl rfl
  rw [effective_odd] at hload hagain
  exact ⟨hload, hagain (.inl rfl)⟩

end Odd

end CodeCompaction.App
