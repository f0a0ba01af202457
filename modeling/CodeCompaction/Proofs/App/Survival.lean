import CodeCompaction.Proofs.App.Concluding
import CodeCompaction.Proofs.App.Containment
import CodeCompaction.Proofs.App.Overwriting

namespace CodeCompaction.App

open CodeCompaction.FileTree CodeCompaction.Report

section Runs

variable {w : World} {argv : List Text} {ph : Phase} {dir : Text} {c : Config.Settings} {o : Options}
variable {s : Session} {is : List Item}

theorem logSpares_of_no_logFile (h : Reaches w argv ph) (hdir : outputDir? w ph.settings = some dir)
    (hexit : (run w argv).exit = 0) (hfile : ph.settings.logFile = []) (paths : List Text) :
    LogSpares w dir ph.settings paths (run w argv).tree (ph.session w) (ph.items w) := by
  have hless := fileless_session h hfile
  have hwent := (went_of_exit_zero (run_of_reaches h ▸ hexit)).1
  have hemit := emitResults_of_dir hdir (!ph.options.json) (ph.session w) (ph.items w)
  rw [hemit] at hwent
  rw [run_of_reaches h, tree_conclude, hemit]
  · exact logSpares_of_fileless hless hwent paths
  · rwa [hemit, state_sendAll_writeOne]

theorem read_of_reaches (h : Reaches w argv ph) (hdir : outputDir? w ph.settings = some dir)
    (hexit : (run w argv).exit = 0)
    (hlog : LogSpares w dir ph.settings ((ph.items w).map (pathFor w dir ph.settings)) (run w argv).tree
      (ph.session w) (ph.items w)) {i : Item} (hi : i ∈ ph.items w) :
    ∃ j, lastAt? w dir ph.settings (run w argv).tree (pathFor w dir ph.settings i) (ph.items w) = some j ∧
      (run w argv).tree.read (pathFor w dir ph.settings i) = .ok (encode j.content) := by
  obtain ⟨hwent, hok⟩ := went_of_exit_zero (run_of_reaches h ▸ hexit)
  rw [emitResults_of_dir hdir] at hwent hok
  have htold : ∀ r ∈ (sendAll (writeOne w dir ph.settings) (ph.session w) (ph.items w)).reports, r.error = none :=
    error_of_present (by simpa [summaryOf] using hok)
  have hpaths : ∀ j ∈ ph.items w, pathFor w dir ph.settings j ∈ (ph.items w).map (pathFor w dir ph.settings) :=
    fun j hj => List.mem_map_of_mem hj
  obtain ⟨j, hj⟩ : ∃ j, lastAt? w dir ph.settings (run w argv).tree (pathFor w dir ph.settings i)
    (ph.items w) = some j := exists_lastAt? hi
  refine ⟨j, hj, ?_⟩
  rw [read_of_logSpares hlog hpaths hwent htold (hpaths i hi) (.inl ⟨i, hi, rfl⟩), hj, Option.map_some,
    Option.getD_some]

theorem last_result_stands (h : Reaches w argv ph) (hdir : outputDir? w ph.settings = some dir)
    (hexit : (run w argv).exit = 0)
    (hlog : LogSpares w dir ph.settings ((ph.items w).map (pathFor w dir ph.settings)) (run w argv).tree
      (ph.session w) (ph.items w)) :
    (ph.items w).map Item.input = (ph.found w).inputs ∧
      (ph.reports w).map FileReport.outputPath =
        (ph.items w).map (fun i => some (pathFor w dir ph.settings i)) ∧
      ∀ i ∈ ph.items w, ∃ j,
        lastAt? w dir ph.settings (run w argv).tree (pathFor w dir ph.settings i) (ph.items w) = some j ∧
          (run w argv).tree.read (pathFor w dir ph.settings i) = .ok (encode j.content) :=
  ⟨inputs_items h.complete,
    outputPaths_emitResults hdir _ (went_of_exit_zero (run_of_reaches h ▸ hexit)).1,
    fun _ hi => read_of_reaches h hdir hexit hlog hi⟩

end Runs

section Twins

def twins : Tree :=
  { entries := [([[ch 'w']], .dir), ([[ch 'w'], [ch 'a']], .dir), ([[ch 'w'], [ch 'b']], .dir),
      ([[ch 'w'], [ch 'a'], textName], .file .empty), ([[ch 'w'], [ch 'b'], textName], .file ⟨#[98]⟩)] }

def twinWords : List Text :=
  ["--use-defaults".toText, "--no-tokens".toText, "-m".toText, "raw".toText, "-q".toText, "-o".toText,
    "out".toText, [ch 'a'], [ch 'b']]

def twinOptions : Options :=
  { paths := [[ch 'a'], [ch 'b']], mode := some (some [ch 'r', 'a', 'w']), noTokens := true
    outputDir := some (some [ch 'o', 'u', 't']), quiet := true, useDefaults := true }

def twinSettings : Config.Settings := { mode := .raw, countTokens := false, outputDir := [ch 'o', 'u', 't'] }

def twin (dir content : Text) : Item :=
  { input :=
      { record := { id := Path.join (Path.join [ch '/', 'w'] dir) textName, name := textName, content }
        source := textName }
    content }

def twinPhase : Phase :=
  { options := twinOptions, settings := twinSettings, ready := (settle (worldOf twins) twinOptions).1
    results := [twin [ch 'a'] [], twin [ch 'b'] [ch 'b']].map fun i =>
      { id := i.input.record.id, content := i.content } }

def twinDir : Text := "/w/out".toText

def twinPath : Text := "/w/out/x.txt".toText

def halfway : Tree :=
  { entries := twins.entries ++
      [([[ch 'w'], [ch 'o', 'u', 't']], .dir), ([[ch 'w'], [ch 'o', 'u', 't'], textName], .file .empty)] }

theorem pathFor_twin (t : Tree) (dir content : Text) :
    pathFor (worldOf t) twinDir twinSettings (twin dir content) = twinPath := by
  have hname : resultName (twin dir content) = textName := rfl
  rw [pathFor, hname]
  change Path.output [ch '/', 'w'] twinDir textName [] = twinPath
  cbv

theorem outputDir?_twins (t : Tree) : outputDir? (worldOf t) twinSettings = some twinDir := by
  cbv

section Reached

theorem settle_twins : settle (worldOf twins) twinOptions = (twinPhase.ready, .ok twinSettings) := by
  have hvalue : (effective (worldOf twins) twinOptions Config.defaults.draft).value = twinSettings := by cbv
  refine Prod.ext_iff.mpr ⟨rfl, ?_⟩
  exact settings_of_defaults rfl hvalue rfl

theorem tree_ready_twins : twinPhase.ready.tree = twins := tree_settle settle_twins rfl rfl rfl

theorem inputsBelow_a : (inputsBelow (worldOf twins) twins [ch 'a']).inputs = [(twin [ch 'a'] []).input] := by
  have hpath : Path.absolute (worldOf twins).current [ch 'a'] = [ch '/', 'w', '/', 'a'] := by cbv
  have hwalk : Discovery.walk twins [ch '/', 'w', '/', 'a'] =
      [{ path := (twin [ch 'a'] []).input.record.id, relative := textName }] := by cbv
  rw [inputs_inputsBelow_of_dir hpath (by cbv) (by cbv) hwalk]
  cbv

theorem inputsBelow_b : (inputsBelow (worldOf twins) twins [ch 'b']).inputs = [(twin [ch 'b'] [ch 'b']).input] := by
  have hpath : Path.absolute (worldOf twins).current [ch 'b'] = [ch '/', 'w', '/', 'b'] := by cbv
  have hwalk : Discovery.walk twins [ch '/', 'w', '/', 'b'] =
      [{ path := (twin [ch 'b'] []).input.record.id, relative := textName }] := by cbv
  rw [inputs_inputsBelow_of_dir hpath (by cbv) (by cbv) hwalk]
  cbv

theorem inputs_twins : (twinPhase.found (worldOf twins)).inputs =
    [(twin [ch 'a'] []).input, (twin [ch 'b'] [ch 'b']).input] := by
  rw [Phase.found, tree_ready_twins]
  change (collect _ twins _ false [[ch 'a'], [ch 'b']]).inputs = _
  rw [inputs_collect_cons (by decide), inputs_collect_cons (by decide), inputsBelow_a, inputsBelow_b]
  rfl

theorem items_twins : twinPhase.items (worldOf twins) = [twin [ch 'a'] [], twin [ch 'b'] [ch 'b']] := by
  rw [Phase.items, inputs_twins]
  rfl

theorem reaches_twins : Reaches (worldOf twins) twinWords twinPhase := by
  refine ⟨by cbv, ⟨_, settle_twins, rfl⟩, rfl, ?_, ?_, ?_, ?_⟩
  · rw [tree_ready_twins]
    change missingPaths (worldOf twins) twins [[ch 'a'], [ch 'b']] = []
    cbv
  · exact stop?_collect (by decide)
  · rw [inputs_twins]
    simp
  · rw [Phase.answer, inputs_twins]
    rfl

end Reached

section Written

theorem write_first : (writeResult twins twinPath []).Went ∧ (writeResult twins twinPath []).tree = halfway := by
  refine ⟨⟨?_, ?_⟩, ?_⟩ <;> cbv

theorem write_second : (writeResult halfway twinPath [ch 'b']).Went := by
  constructor <;> cbv

theorem exit_twins : (run (worldOf twins) twinWords).exit = 0 := by
  have hready : twinPhase.ready.log.state.Fileless := fileless_settle settle_twins rfl
  have htree : (twinPhase.session (worldOf twins)).tree = twins := by
    rw [tree_session hready, tree_ready_twins]
  have hless : (twinPhase.session (worldOf twins)).log.state.Fileless := fileless_session reaches_twins rfl
  have hfirst : written (worldOf twins) twinDir twinSettings (twinPhase.session (worldOf twins))
      (twin [ch 'a'] []) = writeResult twins twinPath [] := by
    rw [written, htree, pathFor_twin]
    rfl
  have hsecond : (written (worldOf twins) twinDir twinSettings
      (afterResult (worldOf twins) twinDir twinSettings (twinPhase.session (worldOf twins)) (twin [ch 'a'] []))
      (twin [ch 'b'] [ch 'b'])).Went := by
    rw [written, tree_afterResult hless, hfirst, write_first.2, pathFor_twin]
    exact write_second
  have hout := emitResults_of_dir (outputDir?_twins twins) true (twinPhase.session (worldOf twins))
    (twinPhase.items (worldOf twins))
  have hwent : (writeOne (worldOf twins) twinDir twinSettings (twinPhase.session (worldOf twins))
      (twin [ch 'a'] [])).raised? = none := by
    rw [raised?_writeOne, hfirst]
    exact write_first.1.went
  rw [items_twins, sendAll_cons_of_went hwent, session_writeOne,
    sendAll_cons_of_went ((raised?_writeOne ..).trans hsecond.went)] at hout
  have hok : (summaryOf twinSettings (emitResults (worldOf twins) twinSettings true
      (twinPhase.session (worldOf twins)) (twinPhase.items (worldOf twins))).reports).ok = true := by
    rw [items_twins, hout]
    simp [summaryOf, error_writeOne, hfirst, write_first.1.told, hsecond.told, Summary.present, sendAll]
  rw [run_of_reaches reaches_twins, exit_conclude rfl]
  refine if_pos ⟨?_, hok, fun t ht => absurd ht (List.not_mem_nil)⟩
  rw [items_twins]
  exact congrArg Emitted.raised? hout

theorem lastAt?_twins (t : Tree) : lastAt? (worldOf twins) twinDir twinSettings t twinPath
    [twin [ch 'a'] [], twin [ch 'b'] [ch 'b']] = some (twin [ch 'b'] [ch 'b']) := by
  rw [lastAt?_cons, lastAt?_cons, pathFor_twin, pathFor_twin, meets_self]
  rfl

end Written

theorem last_twin_stands :
    Reaches (worldOf twins) twinWords twinPhase ∧ (run (worldOf twins) twinWords).exit = 0 ∧
      (twinPhase.reports (worldOf twins)).map FileReport.outputPath = [some twinPath, some twinPath] ∧
      (run (worldOf twins) twinWords).tree.read twinPath = .ok (encode (twin [ch 'b'] [ch 'b']).content) := by
  obtain ⟨-, hpaths, hheld⟩ := last_result_stands reaches_twins (outputDir?_twins twins) exit_twins
    (logSpares_of_no_logFile reaches_twins (outputDir?_twins twins) exit_twins rfl _)
  rw [items_twins] at hpaths hheld
  have hfirst := hheld (twin [ch 'a'] []) List.mem_cons_self
  change ∃ j, lastAt? (worldOf twins) twinDir twinSettings _
    (pathFor (worldOf twins) twinDir twinSettings (twin [ch 'a'] [])) _ = some j ∧ _ at hfirst
  rw [pathFor_twin, lastAt?_twins] at hfirst
  obtain ⟨j, hj, hread⟩ := hfirst
  obtain rfl := Option.some.inj hj
  refine ⟨reaches_twins, exit_twins, ?_, hread⟩
  rw [hpaths]
  exact congrArg₂ (fun p q => [some p, some q]) (pathFor_twin _ _ _) (pathFor_twin _ _ _)

section Log

def loggedThere : Log.Settings := { level := Log.debug, logFile := twinPath }

def wrote : Log.Entry := note Log.debug "Wrote /w/out/x.txt".toText

def loggedSinks : Log.Sinks :=
  { console? := Log.consoleSink? loggedThere, file? := some (Log.fileSink loggedThere twinPath) }

theorem state_loggedThere : (configureLog (startSession (worldOf halfway)) loggedThere).1.log.state =
    (({} : Log.State).reset Log.debug loggedSinks) := by
  cbv

theorem tree_loggedThere : (configureLog (startSession (worldOf halfway)) loggedThere).1.tree = halfway := by
  cbv

theorem time_loggedThere : (configureLog (startSession (worldOf halfway)) loggedThere).1.log.time = [] := by
  cbv

theorem write_again : (writeResult halfway twinPath []).Went ∧
    (writeResult halfway twinPath []).entries = [wrote] ∧ (writeResult halfway twinPath []).tree = halfway := by
  refine ⟨⟨?_, ?_⟩, ?_, ?_⟩ <;> cbv

def wroteLine : Text := Log.format Log.fileTemplate [] wrote ++ [ch '\n']

theorem write_wrote : (Log.fileSink loggedThere twinPath).write [] halfway wrote =
    Log.appended halfway twinPath wroteLine := by
  have hsize : Log.sizeAt halfway twinPath = 0 := by cbv
  have hlength : wroteLine.length < 100 := by cbv
  have hroom : (Log.fileSink loggedThere twinPath).isFull halfway wroteLine = false := by
    simp [Log.FileSink.isFull, Log.fileSink, hsize, loggedThere]
    omega
  rw [Log.FileSink.write, if_neg (by decide)]
  change Log.appended (if (Log.fileSink loggedThere twinPath).isFull halfway wroteLine then _ else halfway)
    twinPath wroteLine = _
  rw [hroom]
  rfl

theorem read_appended (line : Text) :
    (Log.appended halfway twinPath line).read twinPath = .ok (.empty ++ encode line) := by
  cbv

theorem log_lands_in_result :
    let s := (configureLog (startSession (worldOf halfway)) loggedThere).1
    let out := emitResults (worldOf halfway) twinSettings true s [twin [ch 'a'] []]
    out.reports.map FileReport.error = [none] ∧
      out.session.tree.read twinPath ≠ .ok (encode (twin [ch 'a'] []).content) := by
  intro s out
  have hwritten : written (worldOf halfway) twinDir twinSettings s (twin [ch 'a'] []) =
      writeResult halfway twinPath [] := by
    rw [written, tree_loggedThere, pathFor_twin]
    rfl
  have hwent : (writeOne (worldOf halfway) twinDir twinSettings s (twin [ch 'a'] [])).raised? = none := by
    rw [raised?_writeOne, hwritten]
    exact write_again.1.went
  have hout : out = _ := (emitResults_of_dir (outputDir?_twins halfway) true s [twin [ch 'a'] []]).trans
    (sendAll_cons_of_went hwent [])
  have hstate : (s.withTree halfway).log.state = ({} : Log.State).reset Log.debug loggedSinks := by
    rw [Session.state_withTree, state_loggedThere]
  have htree : out.session.tree = Log.appended halfway twinPath wroteLine := by
    rw [hout, session_writeOne, sendAll, afterResult, hwritten, write_again.2.1, write_again.2.2]
    have hemit := Log.tree_emit_of_file (s := (s.withTree halfway).log) (n := 0) (e := wrote)
      (by rw [hstate]; rfl) (by rw [hstate]; rfl) rfl (by rw [hstate]; decide)
    refine hemit.trans ?_
    change (Log.fileSink loggedThere twinPath).write s.log.time halfway wrote = _
    rw [time_loggedThere, write_wrote]
  refine ⟨?_, fun hread => ?_⟩
  · rw [hout, List.map_cons, error_writeOne, hwritten, write_again.1.told]
    rfl
  · rw [htree, read_appended] at hread
    have hsize : (ByteArray.empty ++ encode wroteLine).size ≠ (encode (twin [ch 'a'] []).content).size := by cbv
    exact hsize (congrArg ByteArray.size (Except.ok.inj hread))

theorem not_survives_same_name :
    (Reaches (worldOf twins) twinWords twinPhase ∧ (run (worldOf twins) twinWords).exit = 0 ∧
      twinPhase.items (worldOf twins) = [twin [ch 'a'] [], twin [ch 'b'] [ch 'b']] ∧
      (run (worldOf twins) twinWords).tree.read (pathFor (worldOf twins) twinDir twinSettings (twin [ch 'a'] [])) ≠
        .ok (encode (twin [ch 'a'] []).content)) ∧
    (let s := (configureLog (startSession (worldOf halfway)) loggedThere).1
     let out := emitResults (worldOf halfway) twinSettings true s [twin [ch 'a'] []]
     out.reports.map FileReport.error = [none] ∧
       out.session.tree.read twinPath ≠ .ok (encode (twin [ch 'a'] []).content)) := by
  have hlog := logSpares_of_no_logFile reaches_twins (outputDir?_twins twins) exit_twins rfl
    ((twinPhase.items (worldOf twins)).map (pathFor (worldOf twins) twinDir twinSettings))
  have hfirst : twin [ch 'a'] [] ∈ twinPhase.items (worldOf twins) := by
    rw [items_twins]
    exact List.mem_cons_self
  obtain ⟨j, hj, hread⟩ := read_of_reaches reaches_twins (outputDir?_twins twins) exit_twins hlog hfirst
  change lastAt? (worldOf twins) twinDir twinSettings _
    (pathFor (worldOf twins) twinDir twinSettings (twin [ch 'a'] [])) _ = some j at hj
  rw [pathFor_twin, items_twins, lastAt?_twins] at hj
  obtain rfl := Option.some.inj hj
  have hsize : (encode (twin [ch 'b'] [ch 'b']).content).size ≠ (encode (twin [ch 'a'] []).content).size := by cbv
  refine ⟨⟨reaches_twins, exit_twins, items_twins, fun hlost => ?_⟩, log_lands_in_result⟩
  exact hsize (congrArg ByteArray.size (Except.ok.inj (hread.symm.trans hlost)))

end Log

end Twins

end CodeCompaction.App
