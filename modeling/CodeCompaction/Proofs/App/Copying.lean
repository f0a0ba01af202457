import Mathlib
import CodeCompaction.Proofs.App.Placing
import CodeCompaction.Proofs.Discovery.Texts

namespace CodeCompaction.App

open CodeCompaction.Discovery CodeCompaction.FileTree CodeCompaction.FileTree.Tree CodeCompaction.Path
open CodeCompaction.Report CodeCompaction.Text

variable {w : World} {argv : List Text} {o : Options} {given out : Text} {k j : Nat} {p : Place}
variable {up above names : List Text} {i : Input} {bytes : ByteArray} {content : Text}

structure AsksForCopy (o : Options) (given out : Text) : Prop where
  paths : o.paths = [given]
  given : given ≠ stdinMark
  mode : o.mode = some (some Mode.raw.tag.toText)
  outputDir : o.outputDir = some (some out)
  out : strip out ≠ []
  outputSuffix : o.outputSuffix = none
  logFile : o.logFile = none
  noTokens : o.noTokens = true
  useDefaults : o.useDefaults = true
  saveConfig : o.saveConfig = false
  dumpConfig : o.dumpConfig = false

section Settings

def copySettings (o : Options) (out : Text) : Config.Settings :=
  { mode := .raw
    countTokens := false
    outputDir := strip out
    logLevel := if o.debug then .debug else .info }

theorem effective_of_copy (h : AsksForCopy o given out) (w : World) :
    (effective w o Config.defaults.draft).value = copySettings o out := by
  rw [effective, Options.overrides, h.mode, h.outputDir, h.outputSuffix, h.logFile, h.noTokens, copySettings]
  cases o.debug <;> rfl

theorem outputDir?_copySettings (h : AsksForCopy o given out) (w : World) :
    outputDir? w (copySettings o out) = some (ofUser w.env w.current out [ch '.']) := by
  have hout : (copySettings o out).outputDir.isEmpty = false := by simpa [copySettings] using h.out
  rw [outputDir?, hout, if_neg Bool.false_ne_true, copySettings, ofUser, ofUser, strip_strip]

theorem settle_of_copy (h : AsksForCopy o given out) (w : World) :
    settle w o = ((settle w o).1, .ok (copySettings o out)) := by
  rw [← settings_of_defaults h.useDefaults (effective_of_copy h w) rfl]

end Settings

section Copies

def copied (i : Input) : Item := { input := i, content := i.record.content }

def copyPhase (w : World) (o : Options) (out : Text) : Phase :=
  { options := o
    settings := copySettings o out
    ready := (settle w o).1
    results := (collected w o (settle w o).1).inputs.map fun i =>
      { id := i.record.id, content := i.record.content } }

theorem process_raw (limit : Json.NestingLimit) (listener? : Option Batch.Listener) (rs : List Batch.Record) :
    (Batch.process .raw (Batch.byMode limit .raw) listener? rs).result =
      .ok (rs.map fun r => { id := r.id, content := r.content }) := by
  rw [Batch.process_byMode, List.map_map]
  rfl

theorem tree_of_copy (h : AsksForCopy o given out) (w : World) : (copyPhase w o out).ready.tree = w.tree :=
  tree_settle (settle_of_copy h w) h.useDefaults (by rw [Options.asksForDefaultLog, h.logFile]; rfl) rfl

theorem pathsOf_copy (h : AsksForCopy o given out) : pathsOf o = [given] := by
  rw [pathsOf, h.paths]
  rfl

theorem inputs_copy (h : AsksForCopy o given out) (w : World) :
    ((copyPhase w o out).found w).inputs = (inputsBelow w w.tree given).inputs := by
  have hgiven : (given == stdinMark) = false := by simpa using h.given
  have hpaths : pathsOf (copyPhase w o out).options = [given] := pathsOf_copy h
  rw [Phase.found, hpaths, tree_of_copy h, inputs_collect_cons hgiven]
  exact List.append_nil _

theorem itemsOf_map (is : List Input) (f : Input → Batch.Processed) :
    itemsOf is (is.map f) = is.map fun i => { input := i, content := (f i).content } := by
  induction is with
  | nil => rfl
  | cons i is ih =>
      rw [itemsOf] at ih ⊢
      rw [List.map_cons, List.zip_cons_cons, List.map_cons, ih, List.map_cons]

theorem items_copy (h : AsksForCopy o given out) (w : World) :
    (copyPhase w o out).items w = (inputsBelow w w.tree given).inputs.map copied := by
  have hfound : (collected w o (settle w o).1).inputs = (inputsBelow w w.tree given).inputs := inputs_copy h w
  rw [Phase.items, inputs_copy h, copyPhase, hfound]
  exact itemsOf_map _ _

theorem reaches_copy (hparsed : Options.ofWords argv = .ok o) (h : AsksForCopy o given out)
    (htransform : w.transform .raw = Batch.byMode w.limit .raw)
    (hthere : w.tree.contains (seenFrom w.current given) = true)
    (hinputs : (inputsBelow w w.tree given).inputs ≠ []) : Reaches w argv (copyPhase w o out) := by
  refine ⟨hparsed, ⟨_, settle_of_copy h w, ?_⟩, h.dumpConfig, ?_, ?_, ?_, ?_⟩
  · change saved w o _ _ = _
    rw [saved, h.saveConfig]
    rfl
  · rw [tree_of_copy h]
    change missingPaths w w.tree (pathsOf o) = []
    simp [missingPaths, pathsOf_copy h, hthere]
  · change (collect w _ _ false (pathsOf o)).stop? = none
    rw [pathsOf_copy h]
    exact stop?_collect (by simpa using h.given.symm)
  · rwa [inputs_copy h]
  · refine mapError_eq_ok.mpr ?_
    change (Batch.process .raw (w.transform .raw) _ _).result = _
    rw [htransform, process_raw, List.map_map]
    rfl

end Copies

section Placed

def inputAt (path : Text) (names : List Text) (content : Text) : Input :=
  { record := { id := join path (slashed names), name := baseName (join path (slashed names)), content }
    source := slashed names }

theorem mem_inputsBelow_iff (ht : w.tree.isWellNamed = true) (h : Rooted j above)
    (hpath : absolute w.current given = rootedAt j above) (hdir : w.tree.isDir (rootedAt j above) = true)
    (hentered : ∀ names bytes, VisibleText w.tree (rootedAt j above) names bytes →
      names.dropLast.any slips = false) :
    i ∈ (inputsBelow w w.tree given).inputs ↔ ∃ names content,
      VisibleText w.tree (rootedAt j above) names (encode content) ∧ content.isScalar = true ∧
        i = inputAt (rootedAt j above) names content := by
  simp only [inputsBelow, List.mem_map, mem_texts_of_dir_iff ht h hpath hdir hentered]
  constructor
  · rintro ⟨_, ⟨names, content, htext, hscalar, rfl⟩, rfl⟩
    exact ⟨names, content, htext, hscalar, rfl⟩
  · rintro ⟨names, content, htext, hscalar, rfl⟩
    exact ⟨_, ⟨names, content, htext, hscalar, rfl⟩, rfl⟩

theorem resultName_inputAt (h : Rooted j above) (hne : names ≠ []) (hnames : ∀ n ∈ names, isName n = true)
    (content : Text) : resultName (copied (inputAt (rootedAt j above) names content)) = slashed names := by
  rw [resultName]
  split
  · rename_i hmark
    obtain rfl : names = [stdinMark] := by
      have hparts := congrArg parts (beq_iff_eq.mp hmark)
      exact (parts_slashed hne (slash_not_mem_of_named hnames)).symm.trans hparts
    change baseName (join (rootedAt j above) (slashed [stdinMark])) = _
    rw [join_slashed h hne hnames, baseName_rootedAt (h.below hnames), List.getLast?_concat]
    rfl
  · rfl

theorem fileOf_inputAt (h : Rooted j above) (hne : names ≠ []) (hnames : ∀ n ∈ names, isName n = true)
    (content : Text) : fileOf (copied (inputAt (rootedAt j above) names content)) = (names, encode content) := by
  rw [fileOf, resultName_inputAt h hne hnames, parts_slashed hne (slash_not_mem_of_named hnames)]
  rfl

theorem pathFor_inputAt (h : Rooted j above) (hup : Rooted k up) (hne : names ≠ [])
    (hnames : ∀ n ∈ names, isName n = true) (hplain : (slashed names).head? ≠ some (ch '\\')) (content : Text) :
    pathFor w (rootedAt k up) (copySettings o out) (copied (inputAt (rootedAt j above) names content)) =
      rootedAt k (up ++ names) := by
  rw [pathFor, resultName_inputAt h hne hnames]
  exact output_slashed hup w.current hne hnames hplain

end Placed

section Runs

def AllShort (t : Tree) (source target : Text) : Prop :=
  ∀ names bytes, VisibleText t source names bytes → (join target (slashed names)).nameSize ≤ maxPathBytes

/-- A run that copies the directory at one path to a fresh one. There is something to copy, no name of it starts
with a backslash, and none slips on the way. -/
structure CopyRun (w : World) (argv : List Text) (o : Options) (given out : Text) (p : Place) : Prop where
  parsed : Options.ofWords argv = .ok o
  asks : AsksForCopy o given out
  transform : w.transform .raw = Batch.byMode w.limit .raw
  wellNamed : w.tree.isWellNamed = true
  current : isAbsolute w.current = true
  present : w.tree.contains (seenFrom w.current given) = true
  source : w.tree.isDir (absolute w.current given) = true
  fresh : Fresh w.tree (ofUser w.env w.current out [ch '.']) p
  plain : ∀ names bytes, VisibleText w.tree (absolute w.current given) names bytes →
    (slashed names).head? ≠ some (ch '\\')
  entered : ∀ names bytes, VisibleText w.tree (absolute w.current given) names bytes →
    names.dropLast.any slips = false
  nonempty : ∃ names bytes, VisibleText w.tree (absolute w.current given) names bytes

variable (h : CopyRun w argv o given out p)

def copies (w : World) (given : Text) : List (List Text × ByteArray) :=
  ((inputsBelow w w.tree given).inputs.map copied).map fileOf

include h

theorem CopyRun.exists_source : ∃ j above, Rooted j above ∧ absolute w.current given = rootedAt j above :=
  exists_rooted_absolute h.current given

theorem CopyRun.exists_target : ∃ k up, Rooted k up ∧ ofUser w.env w.current out [ch '.'] = rootedAt k up :=
  exists_rooted_outputDir h.current (outputDir?_copySettings h.asks w)

theorem CopyRun.mem_inputs_iff : i ∈ (inputsBelow w w.tree given).inputs ↔ ∃ names content,
    VisibleText w.tree (absolute w.current given) names (encode content) ∧ content.isScalar = true ∧
      i = inputAt (absolute w.current given) names content := by
  obtain ⟨j, above, habove, hpath⟩ := h.exists_source
  have hdir := h.source
  have hentered := h.entered
  rw [hpath] at hdir hentered ⊢
  exact mem_inputsBelow_iff h.wellNamed habove hpath hdir hentered

theorem CopyRun.fileOf_of_text (htext : VisibleText w.tree (absolute w.current given) names bytes)
    (content : Text) :
    fileOf (copied (inputAt (absolute w.current given) names content)) = (names, encode content) := by
  obtain ⟨j, above, habove, hpath⟩ := h.exists_source
  rw [hpath]
  exact fileOf_inputAt habove htext.nonempty htext.named content

theorem CopyRun.mem_copies_iff :
    (names, bytes) ∈ copies w given ↔ VisibleText w.tree (absolute w.current given) names bytes := by
  rw [copies, List.map_map, List.mem_map]
  constructor
  · rintro ⟨i, hi, hfile⟩
    obtain ⟨names, content, htext, -, rfl⟩ := h.mem_inputs_iff.mp hi
    rw [Function.comp_apply, h.fileOf_of_text htext] at hfile
    obtain ⟨rfl, rfl⟩ := Prod.mk.inj hfile
    exact htext
  · intro htext
    obtain ⟨content, hscalar, rfl⟩ := htext.utf8
    exact ⟨_, h.mem_inputs_iff.mpr ⟨names, content, htext, hscalar, rfl⟩, h.fileOf_of_text htext content⟩

theorem CopyRun.apart : Apart (copies w given) := by
  obtain ⟨j, above, habove, hpath⟩ := h.exists_source
  rintro ⟨names, bytes⟩ hf ⟨more, bytes'⟩ hg hpre
  rw [h.mem_copies_iff] at hf hg
  obtain rfl := (hpath ▸ hf).eq_of_isPrefix habove (hpath ▸ hg) hpre
  rw [hf.unique hg]

theorem CopyRun.reaches : Reaches w argv (copyPhase w o out) := by
  refine reaches_copy h.parsed h.asks h.transform h.present ?_
  obtain ⟨names, bytes, htext⟩ := h.nonempty
  obtain ⟨content, hscalar, rfl⟩ := htext.utf8
  exact List.ne_nil_of_mem (h.mem_inputs_iff.mpr ⟨names, content, htext, hscalar, rfl⟩)

theorem CopyRun.exists_session (hout : ofUser w.env w.current out [ch '.'] = rootedAt k up) :
    ∃ s : Session, s.log.state.Fileless ∧ s.tree = w.tree ∧
      (copyPhase w o out).emitted w = sendAll (writeOne w (rootedAt k up) (copySettings o out)) s
        ((inputsBelow w w.tree given).inputs.map copied) ∧
      (run w argv).tree = ((copyPhase w o out).emitted w).session.tree ∧
      ((run w argv).exit = 0 ↔ AllWent ((copyPhase w o out).emitted w) ∧
        w.Takes (shown (copySettings o out) o (summaryOf (copySettings o out) ((copyPhase w o out).reports w)))) := by
  have hreaches := h.reaches
  have hless := fileless_session hreaches rfl
  have hready : (copyPhase w o out).ready.log.state.Fileless := fileless_settle (settle_of_copy h.asks w) rfl
  have hdir : outputDir? w (copySettings o out) = some (rootedAt k up) :=
    (outputDir?_copySettings h.asks w).trans (congrArg some hout)
  have hemit : (copyPhase w o out).emitted w = sendAll (writeOne w (rootedAt k up) (copySettings o out))
      ((copyPhase w o out).session w) ((inputsBelow w w.tree given).inputs.map copied) := by
    rw [Phase.emitted, items_copy h.asks w]
    exact emitResults_of_dir hdir _ _ _
  have hrun : run w argv = conclude w o (copySettings o out) ((copyPhase w o out).session w)
      ((copyPhase w o out).items w) := run_of_reaches hreaches
  refine ⟨(copyPhase w o out).session w, hless, (tree_session hready).trans (tree_of_copy h.asks w), hemit, ?_, ?_⟩
  · rw [hrun]
    refine tree_conclude ?_
    change ((copyPhase w o out).emitted w).session.log.state.Fileless
    rwa [hemit, state_sendAll_writeOne]
  · rw [hrun, exit_conclude_eq_zero_iff rfl]
    constructor
    · rintro ⟨hwent, htold, htakes⟩
      exact ⟨⟨hwent, htold⟩, htakes⟩
    · rintro ⟨hall, htakes⟩
      exact ⟨hall.went, hall.told, htakes⟩

theorem CopyRun.pathFor_of_text (hup : Rooted k up)
    (htext : VisibleText w.tree (absolute w.current given) names bytes) (content : Text) :
    pathFor w (rootedAt k up) (copySettings o out) (copied (inputAt (absolute w.current given) names content)) =
      rootedAt k (up ++ names) := by
  obtain ⟨j, above, habove, hpath⟩ := h.exists_source
  rw [hpath]
  exact pathFor_inputAt habove hup htext.nonempty htext.named (h.plain _ _ htext) content

theorem CopyRun.fits (hup : Rooted k up) (hout : ofUser w.env w.current out [ch '.'] = rootedAt k up)
    (hshort : AllShort w.tree (absolute w.current given) (rootedAt k up))
    (htext : VisibleText w.tree (absolute w.current given) names bytes) : Fits k up names := by
  obtain ⟨j, above, habove, hpath⟩ := h.exists_source
  have hnames : ∀ n ∈ names, n.nameSize ≤ maxNameBytes :=
    short_of_contains (habove.below htext.named) ((hpath ▸ htext).contains habove)
  have hlength := hshort _ _ htext
  have htarget := (askable_of_locate h.fresh.leads).legal
  obtain ⟨_, hheld, -⟩ := read_eq_ok_iff.mp htext.holds
  have hsource := (askable_of_locate hheld).legal
  rw [join_slashed hup htext.nonempty htext.named] at hlength
  rw [hout, pathRefusal?_rootedAt_eq_none_iff] at htarget
  rw [hpath, join_slashed habove htext.nonempty htext.named, pathRefusal?_rootedAt_eq_none_iff,
    List.forall_mem_append] at hsource
  have hlegal : (rootedAt k (up ++ names)).pathRefusal? = none :=
    pathRefusal?_rootedAt_eq_none_iff.mpr (List.forall_mem_append.mpr ⟨htarget, hsource.2⟩)
  exact ⟨fun n hn => ⟨htext.named n hn, hnames n hn⟩, hlegal, hlength⟩

theorem CopyRun.placed (hup : Rooted k up) (hout : ofUser w.env w.current out [ch '.'] = rootedAt k up)
    (hshort : AllShort w.tree (absolute w.current given) (rootedAt k up)) :
    ∀ i ∈ (inputsBelow w w.tree given).inputs.map copied, Placed w (copySettings o out) k up i := by
  refine List.forall_mem_map.mpr fun i hi => ?_
  obtain ⟨names, content, htext, hscalar, rfl⟩ := h.mem_inputs_iff.mp hi
  refine ⟨?_, ?_, hscalar⟩ <;> rw [h.fileOf_of_text htext content]
  · exact h.pathFor_of_text hup htext content
  · exact h.fits hup hout hshort htext

theorem CopyRun.laid (hup : Rooted k up) (hout : ofUser w.env w.current out [ch '.'] = rootedAt k up)
    (hshort : AllShort w.tree (absolute w.current given) (rootedAt k up)) :
    AllWent ((copyPhase w o out).emitted w) ∧
      ∃ last, Laid (w.tree.makeDirs (rootedAt k up)).tree p (run w argv).tree last ∧
        HoldsOnly (copies w given) last := by
  obtain ⟨s, hless, htree, hemit, hrun, -⟩ := h.exists_session hout
  obtain ⟨names, bytes, htext⟩ := h.nonempty
  have hsome : (inputsBelow w w.tree given).inputs.map copied ≠ [] := by
    obtain ⟨f, hf, -⟩ := List.mem_map.mp (h.mem_copies_iff.mpr htext)
    exact List.ne_nil_of_mem hf
  have hfresh := h.fresh
  rw [hout, ← htree] at hfresh
  have hdone := laid_sendAll_of_fresh hless hfresh hup (h.placed hup hout hshort) h.apart hsome
  rw [htree, ← hemit, ← hrun] at hdone
  exact hdone

theorem CopyRun.short_of_allWent (hup : Rooted k up) (hout : ofUser w.env w.current out [ch '.'] = rootedAt k up)
    (hall : AllWent ((copyPhase w o out).emitted w)) :
    AllShort w.tree (absolute w.current given) (rootedAt k up) := by
  intro names bytes htext
  obtain ⟨s, -, -, hemit, -⟩ := h.exists_session hout
  obtain ⟨content, hscalar, rfl⟩ := htext.utf8
  by_contra hlong
  rw [join_slashed hup htext.nonempty htext.named, ← h.pathFor_of_text hup htext content] at hlong
  have hi := h.mem_inputs_iff.mpr ⟨names, content, htext, hscalar, rfl⟩
  rw [hemit] at hall
  exact not_allWent_of_long (List.mem_map_of_mem hi) (Nat.lt_of_not_le hlong) hall

theorem CopyRun.exit_iff (hup : Rooted k up) (hout : ofUser w.env w.current out [ch '.'] = rootedAt k up) :
    (run w argv).exit = 0 ↔ AllShort w.tree (absolute w.current given) (rootedAt k up) ∧
      w.Takes (shown (copySettings o out) o (summaryOf (copySettings o out) ((copyPhase w o out).reports w))) := by
  obtain ⟨-, -, -, -, -, hexit⟩ := h.exists_session hout
  exact hexit.trans
    (and_congr_left' ⟨h.short_of_allWent hup hout, fun hshort => (h.laid hup hout hshort).1⟩)

omit h

theorem raw_run_copies (h : CopyRun w argv o given out p) :
    let source := absolute w.current given
    let target := ofUser w.env w.current out [ch '.']
    let last := (run w argv).tree
    ((run w argv).exit = 0 ↔ AllShort w.tree source target ∧
      w.Takes (shown (copySettings o out) o (summaryOf (copySettings o out) ((copyPhase w o out).reports w)))) ∧
    (AllShort w.tree source target → last.locate target = .ok p ∧
      (∀ names bytes, last.node? (p ++ names) = some (.file bytes) ↔ VisibleText w.tree source names bytes) ∧
      (∀ names, names ≠ [] → (last.node? (p ++ names) = some .dir ↔
        ∃ more bytes, more ≠ [] ∧ VisibleText w.tree source (names ++ more) bytes)) ∧
      (∀ names link, last.node? (p ++ names) ≠ some (.link link)) ∧
      (∀ names bytes, VisibleText w.tree source names bytes →
        last.read (join target (slashed names)) = .ok bytes) ∧
      ∀ q, ¬ (p <+: q ∧ q ≠ p) → last.node? q = (w.tree.makeDirs target).tree.node? q) := by
  intro source target last
  obtain ⟨k, up, hup, hout⟩ := h.exists_target
  have htarget : target = rootedAt k up := hout
  have hfresh := h.fresh
  rw [hout] at hfresh
  rw [htarget]
  refine ⟨h.exit_iff hup hout, fun hshort => ?_⟩
  obtain ⟨-, content, hlaid, hholds⟩ := h.laid hup hout hshort
  have hsite := hfresh.site hup
  have hne : ∀ f ∈ copies w given, f.1 ≠ [] := fun f hf => (h.mem_copies_iff.mp hf).nonempty
  refine ⟨locate_of_grows hlaid.grows hfresh.leads, fun names bytes => ?_, fun names hnames => ?_,
    fun names => hlaid.not_link hsite hholds, fun names bytes htext => ?_, hlaid.outside⟩
  · exact (hlaid.file_iff hsite hholds hne).trans h.mem_copies_iff
  · refine (hlaid.dir_iff hholds hnames).trans (exists₂_congr fun more bytes => ?_)
    rw [h.mem_copies_iff]
  · rw [join_slashed hup htext.nonempty htext.named]
    exact hlaid.read hsite hholds hup (h.fits hup hout hshort htext) htext.nonempty (h.mem_copies_iff.mpr htext)

end Runs

section Instances

def copyWords (quiet : Bool) (out : Text) : List Text :=
  (if quiet then ["-q".toText] else []) ++
    ["--use-defaults".toText, "--no-tokens".toText, "-m".toText, "raw".toText, "-o".toText, out, "in".toText]

def copyOptions (quiet : Bool) (out : Text) : Options :=
  { paths := ["in".toText], mode := some (some "raw".toText), noTokens := true, outputDir := some (some out)
    quiet, useDefaults := true }

theorem ofWords_copyWords (quiet : Bool) (out : Text) :
    Options.ofWords (copyWords quiet (ch 'a' :: out)) = .ok (copyOptions quiet (ch 'a' :: out)) := by
  cases quiet <;> cbv

theorem asksForCopy (quiet : Bool) (hout : strip out ≠ []) :
    AsksForCopy (copyOptions quiet out) [ch 'i', 'n'] out :=
  ⟨rfl, by decide, rfl, rfl, hout, rfl, rfl, rfl, rfl, rfl, rfl⟩

def inNames : List Text := [[ch 'w'], [ch 'i', 'n']]

theorem absolute_in : absolute [ch '/', 'w'] [ch 'i', 'n'] = rootedAt 1 inNames := by cbv

def sourceTree (below : List (List Text × Node)) : Tree :=
  { entries := ([[ch 'w']], .dir) :: (inNames, .dir) :: below.map fun e => (inNames ++ e.1, e.2) }

theorem ofUser_next_to {ds : List Text} (hne : ds ≠ []) (hds : ∀ d ∈ ds, isName d = true)
    (hverbatim : ∀ c ∈ slashed ds, isVerbatim c = true) :
    ofUser {} [ch '/', 'w'] (slashed ds) [ch '.'] = rootedAt 1 ([[ch 'w']] ++ ds) := by
  have hcurrent : [ch '/', 'w'] = rootedAt 1 [[ch 'w']] := rfl
  rw [hcurrent]
  exact ofUser_slashed {} ⟨.inl rfl, by decide⟩ hne hds hverbatim _

theorem absent_next_to {below : List (List Text × Node)} {d : Text} (hd : d ≠ [ch 'i', 'n']) (r : List Text) :
    (sourceTree below).node? ([[ch 'w']] ++ d :: r) = none := by
  rw [node?, if_neg (by simp), List.lookup_eq_none_iff]
  refine List.forall_mem_cons.mpr ⟨by simp, List.forall_mem_cons.mpr ⟨by simp [inNames, hd], ?_⟩⟩
  exact List.forall_mem_map.mpr fun e _ => by simp [inNames, hd]

theorem strip_slashed {ds : List Text} (hverbatim : ∀ c ∈ slashed ds, isVerbatim c = true) :
    strip (slashed ds) = slashed ds := by
  refine strip_of_no_blank fun c hc => ?_
  have hc' := hverbatim c hc
  simp only [isVerbatim, Bool.and_eq_true, Bool.not_eq_true'] at hc'
  exact hc'.1.1

theorem plain_in {below : List (List Text × Node)} {names : List Text} {bytes : ByteArray}
    (ht : (sourceTree below).isWellNamed = true)
    (hplain : ∀ f ∈ everyFile (sourceTree below) maxDepth (rootedAt 1 inNames) [],
      f.relative.head? ≠ some (ch '\\') ∧ (parts f.relative).dropLast.any slips = false)
    (htext : VisibleText (sourceTree below) (rootedAt 1 inNames) names bytes) :
    (slashed names).head? ≠ some (ch '\\') ∧ names.dropLast.any slips = false := by
  have hmine := hplain _ (htext.mem_everyFile ht ⟨.inl rfl, by decide⟩ (by cbv))
  rwa [foundAt, parts_slashed htext.nonempty (slash_not_mem_of_named htext.named)] at hmine

theorem copyRun_next_to (quiet : Bool) {below : List (List Text × Node)} {out : Text} {ds : List Text}
    (ht : (sourceTree below).isWellNamed = true) (hout : ch 'a' :: out = slashed ds)
    (hds : ∀ d ∈ ds, isName d = true ∧ nameSize d ≤ maxNameBytes)
    (hverbatim : ∀ c ∈ slashed ds, isVerbatim c = true)
    (hask : Askable (rootedAt 1 ([[ch 'w']] ++ ds)))
    (hother : ds.head? ≠ some [ch 'i', 'n'])
    (hplain : ∀ f ∈ everyFile (sourceTree below) maxDepth (rootedAt 1 inNames) [],
      f.relative.head? ≠ some (ch '\\') ∧ (parts f.relative).dropLast.any slips = false)
    (hsome : ∃ names bytes, VisibleText (sourceTree below) (rootedAt 1 inNames) names bytes) :
    CopyRun (worldOf (sourceTree below)) (copyWords quiet (ch 'a' :: out)) (copyOptions quiet (ch 'a' :: out))
      [ch 'i', 'n'] (ch 'a' :: out) ([ch 'w'] :: ds) := by
  have hnames : ∀ d ∈ ds, isName d = true := fun d hd => (hds d hd).1
  have hsource : absolute (worldOf (sourceTree below)).current [ch 'i', 'n'] = rootedAt 1 inNames := absolute_in
  obtain ⟨d, ds, rfl⟩ : ∃ d rest, ds = d :: rest := by
    refine List.exists_cons_of_ne_nil ?_
    rintro rfl
    simp at hout
  have htarget := ofUser_next_to (by simp) hnames hverbatim
  rw [← hout] at htarget
  have hfresh := fresh_of_absent (t := sourceTree below) (p := [[ch 'w']]) ⟨by cbv, by cbv⟩ ⟨.inl rfl, by decide⟩
    ⟨hds, hask⟩ (absent_next_to (by simpa using hother))
  refine ⟨ofWords_copyWords quiet out, asksForCopy quiet ?_, rfl, ht, rfl, ?_, ?_, ?_, ?_, ?_, ?_⟩
  · rw [hout, strip_slashed hverbatim]
    exact slashed_ne_nil (by simp) hnames
  · cbv
  · rw [hsource]
    cbv
  · change Fresh (sourceTree below) (ofUser {} [ch '/', 'w'] (ch 'a' :: out) [ch '.']) _
    rw [htarget]
    exact hfresh
  · rw [hsource]
    exact fun names bytes htext => (plain_in ht hplain htext).1
  · rw [hsource]
    exact fun names bytes htext => (plain_in ht hplain htext).2
  · rw [hsource]
    exact hsome

def marks : Text := [ch '\ufeff', ch 'a', ch '\r', ch '\n', ch '\x00']

def markedFiles : List (List Text × Node) :=
  [([source], .dir), ([source, textName], .file (encode marks)), ([git], .dir),
    ([git, textName], .file (encode marks)), (["y.txt".toText], .file ⟨#[255]⟩)]

theorem everyFile_markedFiles : everyFile (sourceTree markedFiles) maxDepth (rootedAt 1 inNames) [] =
    [foundAt (rootedAt 1 inNames) ["y.txt".toText], foundAt (rootedAt 1 inNames) [git, textName],
      foundAt (rootedAt 1 inNames) [source, textName]] := by
  cbv

theorem visibleText_marks :
    VisibleText (sourceTree markedFiles) (rootedAt 1 inNames) [source, textName] (encode marks) := by
  refine ⟨by simp, by decide, by cbv, by decide, by decide, by cbv, marks, by decide, rfl⟩

theorem isVerbatim_a : isVerbatim (ch 'a') = true := by
  cbv

theorem copyRun_markedFiles : CopyRun (worldOf (sourceTree markedFiles)) (copyWords true [ch 'a'])
    (copyOptions true [ch 'a']) [ch 'i', 'n'] [ch 'a'] [[ch 'w'], [ch 'a']] := by
  refine copyRun_next_to true (by decide) (by decide) (by decide) (by simpa using isVerbatim_a) ⟨rfl, by cbv⟩
    (by decide) ?_ ⟨_, _, visibleText_marks⟩
  rw [everyFile_markedFiles]
  decide

theorem short_markedFiles :
    AllShort (sourceTree markedFiles) (rootedAt 1 inNames) (rootedAt 1 [[ch 'w'], [ch 'a']]) := by
  intro names bytes htext
  have hmem := htext.mem_everyFile (by decide) ⟨.inl rfl, by decide⟩ (by cbv)
  have hall : ∀ f ∈ everyFile (sourceTree markedFiles) maxDepth (rootedAt 1 inNames) [],
      (join (rootedAt 1 [[ch 'w'], [ch 'a']]) f.relative).nameSize ≤ maxPathBytes := by
    rw [everyFile_markedFiles]
    decide
  exact hall _ hmem

theorem raw_run_copies_marks :
    let last := (run (worldOf (sourceTree markedFiles)) (copyWords true [ch 'a'])).tree
    (run (worldOf (sourceTree markedFiles)) (copyWords true [ch 'a'])).exit = 0 ∧
      last.read "/w/a/src/x.txt".toText = .ok (encode marks) ∧
      ∀ bytes, last.node? [[ch 'w'], [ch 'a'], git, textName] ≠ some (.file bytes) := by
  intro last
  have hsource : absolute (worldOf (sourceTree markedFiles)).current [ch 'i', 'n'] = rootedAt 1 inNames := absolute_in
  have htarget : ofUser (worldOf (sourceTree markedFiles)).env (worldOf (sourceTree markedFiles)).current [ch 'a'] [ch '.'] =
      rootedAt 1 [[ch 'w'], [ch 'a']] := by cbv
  obtain ⟨hexit, hcopies⟩ := raw_run_copies copyRun_markedFiles
  rw [hsource, htarget] at hexit hcopies
  obtain ⟨-, hfiles, -, -, hread, -⟩ := hcopies short_markedFiles
  refine ⟨hexit.mpr ⟨short_markedFiles, List.forall_mem_nil _⟩, hread _ _ visibleText_marks, fun bytes hfile => ?_⟩
  have hidden := ((hfiles [git, textName] bytes).mp hfile).visible
  exact absurd hidden (by decide)

def deepRow : List Text := List.replicate 15 (List.replicate 255 (ch 'a'))

def longName : Text := List.replicate 251 (ch 'x') ++ ".txt".toText

def longFile : List (List Text × Node) := [([longName], .file .empty)]

set_option maxRecDepth 4000 in
theorem everyFile_longFile : everyFile (sourceTree longFile) maxDepth (rootedAt 1 inNames) [] =
    [foundAt (rootedAt 1 inNames) [longName]] := by
  cbv

set_option maxRecDepth 4000 in
theorem isName_longName : isName longName = true := by
  cbv

set_option maxRecDepth 4000 in
theorem isWellNamed_longFile : (sourceTree longFile).isWellNamed = true := by
  cbv

set_option maxRecDepth 4000 in
theorem visibleText_longName :
    VisibleText (sourceTree longFile) (rootedAt 1 inNames) [longName] .empty := by
  refine ⟨by simp, ?_, by cbv, by cbv, by cbv, by cbv, [], rfl, rfl⟩
  simpa using isName_longName

theorem mem_deepRow {d : Text} (hd : d ∈ deepRow) : d = List.replicate 255 (ch 'a') := List.eq_of_mem_replicate hd

theorem nameSize_replicate {c : CodePoint} (hc : (if isEscapedByte c then 1 else c.utf8Size) = 1) (n : Nat) :
    nameSize (List.replicate n c) = n := by
  induction n with
  | zero => rfl
  | succ n ih => rw [List.replicate_succ, nameSize_cons, ih, hc, Nat.add_comm]

theorem nameSize_below_deepRow (more : List Text) : nameSize (rootedAt 1 ([ch 'w'] :: (deepRow ++ more))) =
    3842 + (more.map (nameSize · + 1)).sum := by
  have hw : nameSize [ch 'w'] = 1 := rfl
  rw [nameSize_rootedAt_cons, List.map_cons, List.map_append, deepRow, List.map_replicate, nameSize_replicate rfl,
    List.sum_cons, List.sum_append, List.sum_replicate, hw, smul_eq_mul]
  omega

theorem named_deepRow : ∀ d ∈ deepRow, isName d = true ∧ nameSize d ≤ maxNameBytes := by
  intro d hd
  rw [mem_deepRow hd, nameSize_replicate rfl, isName_iff]
  refine ⟨⟨List.cons_ne_nil _ _, fun hmem => ?_, fun heq => ?_, fun heq => ?_⟩, le_rfl⟩
  · exact absurd (List.eq_of_mem_replicate hmem) (by decide)
  all_goals exact absurd (congrArg List.length heq) (by rw [List.length_replicate]; decide)

theorem verbatim_deepRow : ∀ c ∈ slashed deepRow, isVerbatim c = true := by
  intro c hc
  rcases mem_slashed hc with rfl | ⟨d, hd, hcd⟩
  · cbv
  · rw [mem_deepRow hd] at hcd
    rw [List.eq_of_mem_replicate hcd]
    exact isVerbatim_a

theorem askable_deepRow : Askable (rootedAt 1 ([ch 'w'] :: deepRow)) := by
  have hlength := nameSize_below_deepRow []
  rw [List.append_nil] at hlength
  refine ⟨pathRefusal?_rootedAt_eq_none_iff.mpr ?_, hlength.trans_le (by decide)⟩
  refine List.forall_mem_cons.mpr ⟨rfl, fun d hd => ?_⟩
  rw [mem_deepRow hd]
  refine pathRefusal?_eq_none_iff.mpr fun c hc => ?_
  rw [List.eq_of_mem_replicate hc]
  rfl

theorem copyRun_longFile : CopyRun (worldOf (sourceTree longFile)) (copyWords false (slashed deepRow))
    (copyOptions false (slashed deepRow)) [ch 'i', 'n'] (slashed deepRow) ([ch 'w'] :: deepRow) := by
  have hhead : slashed deepRow = ch 'a' :: (slashed deepRow).tail := (List.cons_head?_tail rfl).symm
  have hrun := copyRun_next_to false isWellNamed_longFile hhead.symm named_deepRow verbatim_deepRow
    askable_deepRow (by decide) ?_ ⟨_, _, visibleText_longName⟩
  · rwa [← hhead] at hrun
  · rw [everyFile_longFile]
    have hfirst : (foundAt (rootedAt 1 inNames) [longName]).relative.head? = some (ch 'x') := rfl
    refine List.forall_mem_singleton.mpr ⟨by rw [hfirst]; decide, ?_⟩
    rw [foundAt, parts_slashed (by simp) (slash_not_mem_of_named (by simpa using isName_longName))]
    rfl

theorem not_copied_to_long_path :
    CopyRun (worldOf (sourceTree longFile)) (copyWords false (slashed deepRow))
        (copyOptions false (slashed deepRow)) [ch 'i', 'n'] (slashed deepRow) ([ch 'w'] :: deepRow) ∧
      (run (worldOf (sourceTree longFile)) (copyWords false (slashed deepRow))).exit ≠ 0 := by
  refine ⟨copyRun_longFile, fun hexit => ?_⟩
  have hnames : ∀ d ∈ deepRow, isName d = true := fun d hd => (named_deepRow d hd).1
  have hup : Rooted 1 ([[ch 'w']] ++ deepRow) := Rooted.below ⟨.inl rfl, by decide⟩ hnames
  have htarget := ofUser_next_to (List.cons_ne_nil _ _) hnames verbatim_deepRow
  have hname : ∀ n ∈ [longName], isName n = true := by simpa using isName_longName
  have hsource : absolute (worldOf (sourceTree longFile)).current [ch 'i', 'n'] = rootedAt 1 inNames := absolute_in
  have hshort := ((copyRun_longFile.exit_iff hup htarget).mp hexit).1 _ _ (hsource ▸ visibleText_longName)
  rw [join_slashed hup (by simp) hname, List.append_assoc, List.singleton_append, nameSize_below_deepRow] at hshort
  have hlong : nameSize longName = 255 := by
    rw [longName, nameSize_append, nameSize_replicate rfl]
    rfl
  simp [hlong, maxPathBytes] at hshort

end Instances

end CodeCompaction.App
