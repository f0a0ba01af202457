import Mathlib
import CodeCompaction.App.Run
import CodeCompaction.Proofs.Log.Ownership

namespace CodeCompaction.App

structure Phase where
  options : Options
  settings : Config.Settings
  ready : Session
  results : List Batch.Processed

variable {w : World} {argv : List Text} {ph : Phase}

namespace Phase

def found (w : World) (ph : Phase) : Inputs :=
  collect w ph.ready.tree ph.options.stdinExtension false (pathsOf ph.options)

def answer (w : World) (ph : Phase) : Batch.Answer :=
  Batch.answer .blocking ph.settings.mode (w.transform ph.settings.mode)
    (if showsProgress ph.options then some (fun _ => none) else none) ((ph.found w).inputs.map Input.record)

def items (w : World) (ph : Phase) : List Item := itemsOf (ph.found w).inputs ph.results

def session (w : World) (ph : Phase) : Session :=
  ((ph.ready.emit (ph.found w).entries).emit (ph.answer w).entries).complain
    ((ph.answer w).events.flatMap Batch.Progress.line)

def emitted (w : World) (ph : Phase) : Emitted :=
  emitResults w ph.settings (!ph.options.json) (ph.session w) (ph.items w)

def reports (w : World) (ph : Phase) : List Report.FileReport := (ph.emitted w).reports

end Phase

def saved (w : World) (o : Options) (c : Config.Settings) (s : Session) : Session × Except Failure Bool :=
  if o.saveConfig then save w c s else (s, .ok true)

structure Phase.Complete (w : World) (ph : Phase) : Prop where
  present : missingPaths w ph.ready.tree (pathsOf ph.options) = []
  unstopped : (ph.found w).stop? = none
  nonempty : (ph.found w).inputs ≠ []
  processed : (ph.answer w).result = .ok ph.results

structure Reaches (w : World) (argv : List Text) (ph : Phase) : Prop where
  parsed : Options.ofWords argv = .ok ph.options
  settled : ∃ s, settle w ph.options = (s, .ok ph.settings) ∧
    saved w ph.options ph.settings s = (ph.ready, .ok true)
  running : ph.options.dumpConfig = false
  complete : ph.Complete w

section Runs

theorem processPaths_of_complete (h : ph.Complete w) : processPaths w ph.options ph.settings ph.ready =
    conclude w ph.options ph.settings (ph.session w) (ph.items w) := by
  have hstop := h.unstopped
  have hnonempty := h.nonempty
  have hprocessed := h.processed
  rw [Phase.found] at hstop hnonempty
  rw [Phase.answer, Phase.found] at hprocessed
  simp only [processPaths, h.present, hstop]
  rw [if_neg (by simpa using hnonempty)]
  simp only [runBatch, hprocessed]
  rfl

theorem run_of_reaches (h : Reaches w argv ph) :
    run w argv = conclude w ph.options ph.settings (ph.session w) (ph.items w) := by
  obtain ⟨s, hsettle, hsaved⟩ := h.settled
  rw [saved] at hsaved
  simp only [run, h.parsed, runWith, hsettle, afterSettings, hsaved, h.running]
  exact processPaths_of_complete h.complete

end Runs

section Items

theorem mapError_eq_ok {ε ε' α : Type} {f : ε → ε'} {x : Except ε α} {a : α} :
    x.mapError f = .ok a ↔ x = .ok a := by
  cases x <;> simp [Except.mapError]

theorem ids_run {st : Batch.Setup} {t : Batch.Tally} {rs : List Batch.Record} {out : List Batch.Processed}
    (h : (st.run t rs).result = .ok out) : out.map Batch.Processed.id = rs.map Batch.Record.id := by
  induction rs generalizing t out with
  | nil =>
      rw [Batch.Setup.run] at h
      rw [← Except.ok.inj h]
      rfl
  | cons r rs ih =>
      rw [Batch.Setup.run] at h
      split at h
      · exact absurd h (by simp)
      · rename_i text htext
        cases hrest : (st.run (t.add r.content text.value) rs).result with
        | error e => simp [hrest, Except.map] at h
        | ok out' =>
            simp only [hrest, Except.map] at h
            rw [← Except.ok.inj h, List.map_cons, List.map_cons, ih hrest]

theorem ids_results (h : ph.Complete w) :
    ph.results.map Batch.Processed.id = (ph.found w).inputs.map (fun i => i.record.id) := by
  have hids := ids_run (mapError_eq_ok.mp h.processed)
  rwa [List.map_map] at hids

theorem inputs_itemsOf {inputs : List Input} {results : List Batch.Processed}
    (hlen : inputs.length = results.length) : (itemsOf inputs results).map Item.input = inputs := by
  rw [itemsOf, List.map_map]
  exact List.map_fst_zip hlen.le

theorem contents_itemsOf {inputs : List Input} {results : List Batch.Processed}
    (hlen : inputs.length = results.length) :
    (itemsOf inputs results).map Item.content = results.map Batch.Processed.content := by
  conv_rhs => rw [← List.map_snd_zip hlen.ge, List.map_map]
  rw [itemsOf, List.map_map]
  rfl

theorem length_results (h : ph.Complete w) : (ph.found w).inputs.length = ph.results.length := by
  simpa using (congrArg List.length (ids_results h)).symm

theorem inputs_items (h : ph.Complete w) : (ph.items w).map Item.input = (ph.found w).inputs :=
  inputs_itemsOf (length_results h)

end Items

section Settings

variable {s : Session} {o : Options} {c : Config.Settings}

def informed (w : World) (o : Options) (base : Config.Draft) (s : Session) : Session :=
  (if o.asksForDefaultLog then w.askDataDir s else s).emit (constraintEntries (effective w o base).warnings)

theorem settle_of_base {s' : Session} {base : Config.Draft} (hbase : baseDraft w o (bootstrap w o) = (s', .ok base)) :
    settle w o = match configureLog (informed w o base s') (logSettings (effective w o base).value) with
      | (s, some e) => (s, .error e)
      | (s, none) => (s, .ok (effective w o base).value) := by
  simp only [settle, hbase]
  rfl

theorem settle_of_set {s' : Session} {base : Config.Draft} (hbase : baseDraft w o (bootstrap w o) = (s', .ok base))
    (hvalue : (effective w o base).value = c) (hset : (configureLog (informed w o base s') (logSettings c)).2 = none) :
    settle w o = ((configureLog (informed w o base s') (logSettings c)).1, .ok c) := by
  rw [settle_of_base hbase, hvalue]
  split
  · rename_i heq
    rw [heq] at hset
    exact absurd hset (by simp)
  · rename_i heq
    rw [heq]

theorem settle_eq_ok (h : settle w o = (s, .ok c)) :
    ∃ s' base, baseDraft w o (bootstrap w o) = (s', .ok base) ∧ c = (effective w o base).value ∧
      configureLog (informed w o base s') (logSettings c) = (s, none) := by
  rcases hbase : baseDraft w o (bootstrap w o) with ⟨s', e | base⟩
  · simp [settle, hbase] at h
  · rw [settle_of_base hbase] at h
    split at h
    · simp at h
    · rename_i s'' hlog
      obtain ⟨rfl, hc⟩ := Prod.mk.inj h
      obtain rfl := Except.ok.inj hc
      exact ⟨s', base, rfl, rfl, hlog⟩

theorem snd_configureLog_of_legal {l : Log.Settings}
    (hlegal : l.logFile = [] ∨ (Path.absolute s.log.current l.logFile).pathRefusal? = none) :
    (configureLog s l).2 = none :=
  Log.Session.configuring_of_legal hlegal true

theorem Session.current_emit (s : Session) (es : List Log.Entry) : (s.emit es).log.current = s.log.current :=
  Log.current_emitAll s.log es

theorem current_bootstrap (w : World) (o : Options) : (bootstrap w o).log.current = w.current := by
  rw [bootstrap, Session.current_emit, configureLog]
  simp only [Log.configuring_true, Log.current_configuringAnew]
  rfl

theorem current_baseDraft (w : World) (o : Options) (s : Session) :
    (baseDraft w o s).1.log.current = s.log.current := by
  rw [baseDraft]
  split
  · rfl
  · simp only
    split
    · rfl
    · rw [Session.current_emit]
      rfl

theorem current_informed (w : World) (o : Options) (base : Config.Draft) (s : Session) :
    (informed w o base s).log.current = s.log.current := by
  rw [informed, Session.current_emit]
  split <;> rfl

theorem current_informed_of_base {s' : Session} {base : Config.Draft}
    (hbase : baseDraft w o (bootstrap w o) = (s', .ok base)) : (informed w o base s').log.current = w.current := by
  have hloaded := current_baseDraft w o (bootstrap w o)
  rw [hbase] at hloaded
  rw [current_informed, hloaded, current_bootstrap]

theorem settle_of_legal {s' : Session} {base : Config.Draft} (hbase : baseDraft w o (bootstrap w o) = (s', .ok base))
    (hvalue : (effective w o base).value = c)
    (hlegal : c.logFile = [] ∨ (Path.absolute w.current c.logFile).pathRefusal? = none) :
    (settle w o).2 = .ok c := by
  have hlog : (configureLog (informed w o base s') (logSettings c)).2 = none :=
    snd_configureLog_of_legal (by rwa [current_informed_of_base hbase])
  rw [settle_of_set hbase hvalue hlog]

theorem settings_of_defaults (hdefaults : o.useDefaults = true)
    (hvalue : (effective w o Config.defaults.draft).value = c) (hfile : c.logFile = []) :
    (settle w o).2 = .ok c := by
  have hbase : baseDraft w o (bootstrap w o) = (bootstrap w o, .ok Config.defaults.draft) := by
    rw [baseDraft, if_pos hdefaults]
  exact settle_of_legal hbase hvalue (.inl hfile)

end Settings

section Logless

variable {s : Session} {o : Options} {c : Config.Settings}

theorem Session.state_emit (s : Session) (es : List Log.Entry) : (s.emit es).log.state = s.log.state :=
  Log.state_emitAll s.log es

theorem Session.state_withTree (s : Session) (t : FileTree.Tree) : (s.withTree t).log.state = s.log.state := rfl

theorem Session.tree_withTree (s : Session) (t : FileTree.Tree) : (s.withTree t).tree = t := rfl

theorem Session.tree_complain (s : Session) (t : Text) : (s.complain t).tree = s.tree := rfl

theorem Session.state_complain (s : Session) (t : Text) : (s.complain t).log.state = s.log.state := rfl

theorem Session.tree_emit (hless : s.log.state.Fileless) (es : List Log.Entry) : (s.emit es).tree = s.tree :=
  Log.tree_emitAll hless es

theorem sole_bootstrap (w : World) (o : Options) : (bootstrap w o).log.state.Sole := by
  rw [bootstrap, Session.state_emit]
  exact Log.sole_configure Log.State.sole_new _

theorem tree_configureLog (s : Session) {l : Log.Settings} (hfile : l.logFile = []) :
    (configureLog s l).1.tree = s.tree := by
  simp [configureLog, Log.configuring_true, Log.Session.configuringAnew, hfile, Session.tree]

theorem fileless_configureLog (h : s.log.state.Sole) {l : Log.Settings} (hfile : l.logFile = []) :
    (configureLog s l).1.log.state.Fileless :=
  Log.fileless_configure h hfile

theorem fileless_bootstrap (w : World) (o : Options) : (bootstrap w o).log.state.Fileless := by
  rw [bootstrap, Session.state_emit]
  exact Log.fileless_configure Log.State.sole_new rfl

theorem tree_bootstrap (w : World) (o : Options) : (bootstrap w o).tree = w.tree := by
  have hless := Log.fileless_configure (s := (startSession w).log) Log.State.sole_new
    (c := { level := if o.debug then Log.debug else Log.info }) rfl
  rw [bootstrap, Session.tree_emit hless, tree_configureLog _ rfl]
  rfl

theorem baseDraft_of_load {d : Logged Config.Draft} (hdefaults : o.useDefaults = false)
    (hload : Config.load w.limit (Config.withDataDir w.tree w.env w.current) w.current
      (Config.defaultPath w.env w.current) = .ok d) :
    ∃ s, baseDraft w o (bootstrap w o) = (s, .ok d.value) := by
  rw [← tree_bootstrap w o] at hload
  rw [baseDraft, hdefaults, if_neg Bool.false_ne_true]
  simp only [Config.resolve, List.isEmpty_nil, if_true, hload]
  exact ⟨_, rfl⟩

theorem state_baseDraft (w : World) (o : Options) (s : Session) :
    (baseDraft w o s).1.log.state = s.log.state := by
  rw [baseDraft]
  split
  · rfl
  · simp only
    split
    · exact Session.state_withTree s _
    · rw [Session.state_emit, Session.state_withTree]

theorem sole_informed {base : Config.Draft} (h : s.log.state.Sole) : (informed w o base s).log.state.Sole := by
  rw [informed, Session.state_emit]
  split
  · rwa [World.askDataDir, Session.state_withTree]
  · exact h

theorem fileless_settle (h : settle w o = (s, .ok c)) (hfile : c.logFile = []) : s.log.state.Fileless := by
  obtain ⟨s', base, hbase, rfl, hlog⟩ := settle_eq_ok h
  have hstate := state_baseDraft w o (bootstrap w o)
  rw [hbase] at hstate
  have hsole : s'.log.state.Sole := hstate ▸ sole_bootstrap w o
  have hless : (configureLog (informed w o base s') (logSettings (effective w o base).value)).1.log.state.Fileless :=
    fileless_configureLog (sole_informed hsole) hfile
  rwa [hlog] at hless

theorem tree_settle (h : settle w o = (s, .ok c)) (hdefaults : o.useDefaults = true)
    (hlog : o.asksForDefaultLog = false) (hfile : c.logFile = []) : s.tree = w.tree := by
  obtain ⟨s', base, hbase, -, hset⟩ := settle_eq_ok h
  rw [baseDraft, if_pos hdefaults] at hbase
  obtain ⟨rfl, -⟩ := Prod.mk.inj hbase
  have htree := tree_configureLog (informed w o base (bootstrap w o)) (l := logSettings c) hfile
  have hinformed : (informed w o base (bootstrap w o)).tree = w.tree := by
    rw [informed, if_neg (by simp [hlog]), Session.tree_emit (fileless_bootstrap w o), tree_bootstrap]
  rw [hset] at htree
  exact htree.trans hinformed

theorem state_reportSaved (s : Session) (path : Text) (out : Config.Saved) :
    (reportSaved s path out).1.log.state = s.log.state := by
  rw [reportSaved]
  split
  · rfl
  · split <;> simp only [Session.state_complain, Session.state_emit]

theorem state_saved (w : World) (o : Options) (c : Config.Settings) (s : Session) :
    (saved w o c s).1.log.state = s.log.state := by
  rw [saved]
  split
  · rw [save, state_reportSaved, Session.state_withTree]
  · rfl

theorem fileless_session (h : Reaches w argv ph) (hfile : ph.settings.logFile = []) :
    (ph.session w).log.state.Fileless := by
  obtain ⟨s, hsettle, hsaved⟩ := h.settled
  have hready : ph.ready.log.state = s.log.state := by
    rw [← state_saved w ph.options ph.settings s, hsaved]
  have hsession : (ph.session w).log.state = s.log.state := by
    rw [Phase.session, Session.state_complain, Session.state_emit, Session.state_emit, hready]
  rw [hsession]
  exact fileless_settle hsettle hfile

theorem tree_session (hless : ph.ready.log.state.Fileless) : (ph.session w).tree = ph.ready.tree := by
  have hfound : (ph.ready.emit (ph.found w).entries).log.state.Fileless := by rwa [Session.state_emit]
  rw [Phase.session, Session.tree_complain, Session.tree_emit hfound, Session.tree_emit hless]

end Logless

end CodeCompaction.App
