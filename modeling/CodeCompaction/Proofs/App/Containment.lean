import Mathlib
import CodeCompaction.Proofs.App.Sending
import CodeCompaction.Proofs.Discovery.Names

namespace CodeCompaction.App

open CodeCompaction.FileTree CodeCompaction.Path CodeCompaction.Discovery CodeCompaction.Report

section Collected

variable {w : World} {t : Tree} {ext : Options.Argument} {alreadyRead : Bool} {given : List Text} {i : Input}

theorem inputs_collect_cons {p : Text} (hp : (p == stdinMark) = false) (ps : List Text) :
    (collect w t ext alreadyRead (p :: ps)).inputs =
      (inputsBelow w t p).inputs ++ (collect w t ext alreadyRead ps).inputs := by
  simp [collect, hp, Inputs.andThen]

theorem stop?_collect (hgiven : stdinMark ∉ given) : (collect w t ext alreadyRead given).stop? = none := by
  induction given with
  | nil => rfl
  | cons p ps ih =>
      rw [List.mem_cons, not_or] at hgiven
      have hp : (p == stdinMark) = false := by simpa using Ne.symm hgiven.1
      simp only [collect, hp, Bool.false_eq_true, if_false, Inputs.andThen]
      exact ih hgiven.2

theorem inputs_inputsBelow_of_dir {p path : Text} {found : List Found} (hpath : absolute w.current p = path)
    (hthere : t.contains path = true) (hdir : t.isFile path = false) (hwalk : walk t path = found) :
    (inputsBelow w t p).inputs = ((readAll t found).value.filter FileInfo.isText).map (fun f =>
      { record := { id := f.path, name := f.name, content := f.content }, source := f.relative }) := by
  simp [inputsBelow, readPaths, readEach, readPath, hpath, hthere, hdir, hwalk]

theorem mem_inputsBelow {p : Text} (h : i ∈ (inputsBelow w t p).inputs) :
    ∃ f ∈ (readPath t w.current p).value, f.isText = true ∧ i.source = f.relative ∧ i.record.name = f.name := by
  obtain ⟨f, hf, rfl⟩ := List.mem_map.mp h
  obtain ⟨hmem, htext⟩ := List.mem_filter.mp hf
  refine ⟨f, ?_, htext, rfl, rfl⟩
  simpa [readPaths, readEach] using hmem

theorem exists_textNames_of_mem_collect (ht : t.isWellNamed = true) (hcurrent : isAbsolute w.current = true)
    (hgiven : stdinMark ∉ given) (h : i ∈ (collect w t ext alreadyRead given).inputs) :
    ∃ names, TextNames i.source i.record.name names := by
  induction given with
  | nil => simp [collect] at h
  | cons p ps ih =>
      rw [List.mem_cons, not_or] at hgiven
      have hp : (p == stdinMark) = false := by simpa using Ne.symm hgiven.1
      rw [inputs_collect_cons hp, List.mem_append] at h
      rcases h with h | h
      · obtain ⟨f, hf, htext, hsource, hname⟩ := mem_inputsBelow h
        rw [hsource, hname]
        exact exists_textNames_of_mem_readPath ht hcurrent hf htext
      · exact ih hgiven.2 h

theorem exists_textNames_resultName {j : Item} {names : List Text}
    (h : TextNames j.input.source j.input.record.name names) :
    ∃ names, TextNames (resultName j) j.input.record.name names := by
  rw [resultName]
  split
  · refine ⟨[], by simp, ?_, h.ink⟩
    simpa using h.named j.input.record.name (by simp)
  · exact ⟨names, h⟩

end Collected

section Written

variable {w : World} {c : Config.Settings} {dir : Text} {s : Session} {is : List Item}

theorem outputPaths_emitResults (hdir : outputDir? w c = some dir) (echo : Bool)
    (hwent : (emitResults w c echo s is).raised? = none) :
    (emitResults w c echo s is).reports.map FileReport.outputPath = is.map (fun i => some (pathFor w dir c i)) := by
  rw [emitResults_of_dir hdir] at hwent ⊢
  rw [map_reports_sendAll (outputPath_writeOne w dir c), reported_of_went hwent]

theorem exists_rooted_outputDir (hcurrent : isAbsolute w.current = true) (hdir : outputDir? w c = some dir) :
    ∃ n names, Rooted n names ∧ dir = rootedAt n names := by
  rw [outputDir?] at hdir
  split at hdir
  · simp at hdir
  · obtain rfl := Option.some.inj hdir
    exact exists_rooted_absolute hcurrent _

section Below

variable {t : Tree} {ext : Options.Argument} {alreadyRead : Bool} {given : List Text}

theorem below_pathFor_iff {i : Item} (hcurrent : isAbsolute w.current = true) (ht : t.isWellNamed = true)
    (hgiven : stdinMark ∉ given) (hdir : outputDir? w c = some dir) (hsuffix : ch '/' ∉ c.outputSuffix)
    (hi : i.input ∈ (collect w t ext alreadyRead given).inputs) :
    Below dir (pathFor w dir c i) ↔ climbs dir (resultName i) = false := by
  obtain ⟨n, up, hrooted, rfl⟩ := exists_rooted_outputDir hcurrent hdir
  obtain ⟨names, hnames⟩ := exists_textNames_of_mem_collect ht hcurrent hgiven hi
  obtain ⟨names, hshown, hnamed, hink⟩ := exists_textNames_resultName hnames
  rw [pathFor, hshown]
  exact below_output_iff hrooted w.current hnamed hink hsuffix

theorem outputs_below_iff (hcurrent : isAbsolute w.current = true) (ht : t.isWellNamed = true)
    (hgiven : stdinMark ∉ given) (hdir : outputDir? w c = some dir) (hsuffix : ch '/' ∉ c.outputSuffix)
    (his : ∀ i ∈ is, i.input ∈ (collect w t ext alreadyRead given).inputs) (echo : Bool) (s : Session) :
    let out := emitResults w c echo s is
    let tried := attempted (writeOne w dir c) s is
    (tried <+: is ∧ (out.raised? = none → tried = is)) ∧
    out.reports.map FileReport.outputPath =
      (match out.raised? with | some _ => tried.dropLast | none => tried).map (fun i => some (pathFor w dir c i)) ∧
    ((∀ i ∈ tried, Below dir (pathFor w dir c i)) ↔ ∀ i ∈ tried, climbs dir (resultName i) = false) ∧
    (out.raised? = none → ((∀ r ∈ out.reports, ∃ p, r.outputPath = some p ∧ Below dir p) ↔
      ∀ i ∈ is, climbs dir (resultName i) = false)) := by
  intro out tried
  have hout : out = sendAll (writeOne w dir c) s is := emitResults_of_dir hdir echo s is
  have hbelow : ∀ i ∈ is, Below dir (pathFor w dir c i) ↔ climbs dir (resultName i) = false := fun i hi =>
    below_pathFor_iff hcurrent ht hgiven hdir hsuffix (his i hi)
  have hfront : tried <+: is := attempted_isPrefix _ s is
  refine ⟨⟨hfront, fun hwent => attempted_of_went (hout ▸ hwent)⟩, ?_, ?_, fun hwent => ?_⟩
  · rw [hout]
    exact map_reports_sendAll (outputPath_writeOne w dir c) s is
  · exact forall₂_congr fun i hi => hbelow i (hfront.subset hi)
  · have hreports := List.forall_mem_map (l := out.reports) (f := FileReport.outputPath)
      (P := fun x => ∃ p, x = some p ∧ Below dir p)
    rw [← hreports, outputPaths_emitResults hdir echo hwent, List.forall_mem_map]
    refine forall₂_congr (fun i hi => ?_)
    rw [← hbelow i hi]
    constructor
    · rintro ⟨p, hp, hbelow⟩
      exact Option.some.inj hp ▸ hbelow
    · exact fun hbelow => ⟨_, rfl, hbelow⟩

end Below

section Names

def worldOf (t : Tree) : World :=
  { tree := t
    current := [ch '/', 'w']
    env := {}
    stdin := .content .empty
    refuses := Text.refusal?
    vocabularies := fun _ => .error (.unavailable [])
    transform := Batch.byMode .usual
    limit := .usual
    time := [] }

def minified : Config.Settings := { outputDir := "out".toText, outputSuffix := ".min".toText }

theorem outputDir?_minified (t : Tree) : outputDir? (worldOf t) minified = some "/w/out".toText := by
  rw [outputDir?, worldOf]
  cbv

def textName : Text := [ch 'x', '.', 't', 'x', 't']

def backslashes : Tree :=
  { entries := [([[ch 'w']], .dir), ([[ch 'w'], [ch 'i', 'n']], .dir),
      ([[ch 'w'], [ch 'i', 'n'], [ch '\\', 'a']], .dir),
      ([[ch 'w'], [ch 'i', 'n'], [ch '\\', 'a'], textName], .file .empty),
      ([[ch 'w'], [ch 'i', 'n'], [ch '\\', '.', '.']], .dir),
      ([[ch 'w'], [ch 'i', 'n'], [ch '\\', '.', '.'], textName], .file .empty)] }

def textIn (dir : Text) : Found :=
  { path := join [ch '/', 'w', '/', 'i', 'n'] (join dir textName), relative := join dir textName }

def inputIn (dir : Text) : Input :=
  { record := { id := (textIn dir).path, name := textName, content := [] }, source := (textIn dir).relative }

def dots : Text := [ch '\\', '.', '.']

def plain : Text := [ch '\\', 'a']

theorem walk_backslashes : walk backslashes [ch '/', 'w', '/', 'i', 'n'] = [textIn dots, textIn plain] := by
  cbv

theorem readAll_backslashes :
    ((readAll backslashes [textIn dots, textIn plain]).value.filter FileInfo.isText).map (fun f =>
      ({ record := { id := f.path, name := f.name, content := f.content }, source := f.relative } : Input)) =
      [inputIn dots, inputIn plain] := by
  cbv

theorem inputs_backslashes :
    (collect (worldOf backslashes) backslashes none false [[ch 'i', 'n']]).inputs =
      [inputIn dots, inputIn plain] := by
  have hpath : absolute (worldOf backslashes).current [ch 'i', 'n'] = [ch '/', 'w', '/', 'i', 'n'] := by cbv
  have hfound : backslashes.contains [ch '/', 'w', '/', 'i', 'n'] = true := by cbv
  have hdir : backslashes.isFile [ch '/', 'w', '/', 'i', 'n'] = false := by cbv
  rw [inputs_collect_cons (by decide), inputs_inputsBelow_of_dir hpath hfound hdir walk_backslashes,
    readAll_backslashes]
  rfl

theorem went_emitResults_minified {w : World} {i : Item} (hdir : outputDir? w minified = some "/w/out".toText)
    (hlegal : (pathFor w "/w/out".toText minified i).pathRefusal? = none) (hscalar : i.content.isScalar = true) :
    (emitResults w minified true (startSession w) [i]).raised? = none := by
  rw [emitResults_of_dir hdir]
  exact went_sendAll_writeOne (by simpa using hlegal) (by simpa using hscalar)

theorem outputs_below_with_leading_backslash :
    let w := worldOf backslashes
    let i : Item := { input := inputIn plain, content := [] }
    (emitResults w minified true (startSession w) [i]).reports.map FileReport.outputPath =
        [some "/w/out/a/x.min.txt".toText] ∧
      Below "/w/out".toText "/w/out/a/x.min.txt".toText := by
  intro w i
  have hpath : pathFor w "/w/out".toText minified i = "/w/out/a/x.min.txt".toText := by decide +kernel
  have hwent := went_emitResults_minified (i := i) (outputDir?_minified backslashes) (by rw [hpath]; decide) rfl
  have hreports := outputPaths_emitResults (outputDir?_minified backslashes) true hwent
  rw [List.map_singleton, hpath] at hreports
  have his : ∀ j ∈ [i], j.input ∈ (collect w backslashes none false [[ch 'i', 'n']]).inputs := by
    rw [inputs_backslashes]
    simp [i]
  have hbelow := ((outputs_below_iff rfl (by decide) (by decide) (outputDir?_minified backslashes) (by decide)
    his true (startSession w)).2.2.2 hwent).mpr (by decide +kernel)
  obtain ⟨r, hr, hpath⟩ := List.mem_map.mp (hreports ▸ List.mem_singleton_self _)
  obtain ⟨p, hp, hbelow⟩ := hbelow r hr
  obtain rfl := Option.some.inj (hpath.symm.trans hp)
  exact ⟨hreports, hbelow⟩

theorem not_below_of_backslash_dots :
    let w := worldOf backslashes
    let i : Item := { input := inputIn dots, content := [] }
    isAbsolute w.current = true ∧ backslashes.isWellNamed = true ∧
      i.input ∈ (collect w backslashes none false [[ch 'i', 'n']]).inputs ∧
      outputDir? w minified = some "/w/out".toText ∧
      (emitResults w minified true (startSession w) [i]).reports.map FileReport.outputPath =
        [some "/w/x.min.txt".toText] ∧
      ¬ Below "/w/out".toText "/w/x.min.txt".toText := by
  intro w i
  have hpath : pathFor w "/w/out".toText minified i = "/w/x.min.txt".toText := by decide +kernel
  have hwent := went_emitResults_minified (i := i) (outputDir?_minified backslashes) (by rw [hpath]; decide) rfl
  have hreports := outputPaths_emitResults (outputDir?_minified backslashes) true hwent
  rw [List.map_singleton, hpath] at hreports
  have hi : i.input ∈ (collect w backslashes none false [[ch 'i', 'n']]).inputs := by
    rw [inputs_backslashes]
    exact List.mem_cons_self
  have hbelow := below_pathFor_iff (w := w) (i := i) rfl (by decide) (by decide)
    (outputDir?_minified backslashes) (by decide) hi
  rw [hpath] at hbelow
  refine ⟨rfl, by decide, hi, outputDir?_minified backslashes, hreports, fun h => ?_⟩
  exact absurd (hbelow.mp h) (by decide +kernel)

end Names

end Written

end CodeCompaction.App
