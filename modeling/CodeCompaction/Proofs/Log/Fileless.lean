import CodeCompaction.Log.Bootstrap

namespace CodeCompaction.Log

variable {s : Session} {st : State} {sinks : Sinks}

def State.Fileless (st : State) : Prop := ∀ l ∈ st.running, l.sinks.file? = none

def State.Sole (st : State) : Prop := st.running = st.listener?.toList

theorem State.sole_new : ({} : State).Sole := rfl

section Setup

theorem running_shutdown (h : st.Sole) (level : Level) : ({ st with level }).shutdown.running = [] := by
  simp only [State.shutdown]
  rw [h]
  cases st.listener? with
  | none => rfl
  | some l => simp

theorem running_reset (h : st.Sole) (level : Level) (sinks : Sinks) :
    (st.reset level sinks).running = [] ∨ ∃ n, (st.reset level sinks).running = [{ number := n, sinks }] := by
  have hempty := running_shutdown h level
  rw [State.reset, State.install]
  split
  · exact .inl hempty
  · exact .inr ⟨_, congrArg (_ :: ·) hempty⟩

theorem sole_reset (h : st.Sole) (level : Level) (sinks : Sinks) : (st.reset level sinks).Sole := by
  have hempty := running_shutdown h level
  rw [State.reset, State.install]
  split
  · exact hempty
  · exact congrArg (_ :: ·) hempty

theorem fileless_reset (h : st.Sole) (level : Level) (hsinks : sinks.file? = none) :
    (st.reset level sinks).Fileless := by
  intro l hl
  rcases running_reset h level sinks with hrun | ⟨n, hrun⟩
  · simp [hrun] at hl
  · rw [hrun, List.mem_singleton] at hl
    rw [hl, hsinks]

theorem exists_reset_configuringAnew (s : Session) (c : Settings) : ∃ sinks,
    (s.configuringAnew c).1.state = s.state.reset c.level sinks ∧
      ((s.configuringAnew c).2 = none → sinks.console? = consoleSink? c) ∧
      (c.logFile = [] → sinks.file? = none) := by
  rw [Session.configuringAnew]
  split
  · exact ⟨_, rfl, fun _ => rfl, fun _ => rfl⟩
  · rename_i hfile
    have hnone : ∀ {sinks : Sinks}, c.logFile = [] → sinks.file? = none := fun h => absurd h (by simpa using hfile)
    split
    · exact ⟨_, rfl, fun _ => rfl, hnone⟩
    · split
      · exact ⟨{}, rfl, fun h => absurd h (by simp), hnone⟩
      · exact ⟨_, rfl, fun _ => rfl, hnone⟩

theorem current_configuringAnew (s : Session) (c : Settings) : (s.configuringAnew c).1.current = s.current := by
  rw [Session.configuringAnew]
  split
  · rfl
  · split
    · rfl
    · split <;> rfl

theorem configuring_true (s : Session) (c : Settings) : s.configuring c true = s.configuringAnew c := by
  simp [Session.configuring]

theorem sole_configure (h : s.state.Sole) (c : Settings) : (s.configure c true).state.Sole := by
  obtain ⟨sinks, hreset, -, -⟩ := exists_reset_configuringAnew s c
  rw [Session.configure, configuring_true, hreset]
  exact sole_reset h _ _

theorem fileless_configure (h : s.state.Sole) {c : Settings} (hfile : c.logFile = []) :
    (s.configure c true).state.Fileless := by
  obtain ⟨sinks, hreset, -, hless⟩ := exists_reset_configuringAnew s c
  rw [Session.configure, configuring_true, hreset]
  exact fileless_reset h _ (hless hfile)

end Setup

section Entries

def Session.setting (s : Session) : State × Text × Text := (s.state, s.current, s.time)

theorem setting_deliver (s : Session) (e : Entry) (h : Handler) : (s.deliver e h).setting = s.setting := by
  cases h with
  | foreign owner => rfl
  | ours n =>
      rw [Session.deliver]
      split <;> rfl

theorem tree_deliver (hless : s.state.Fileless) (e : Entry) (h : Handler) : (s.deliver e h).tree = s.tree := by
  cases h with
  | foreign owner => rfl
  | ours n =>
      rw [Session.deliver]
      split
      · rename_i l hl
        rw [Session.writeTo, hless l (List.mem_of_find?_eq_some hl)]
        rfl
      · rfl

theorem setting_emit (s : Session) (e : Entry) : (s.emit e).setting = s.setting := by
  rw [Session.emit]
  split
  · rfl
  · split
    · rw [Session.lastResort]
      split <;> rfl
    · exact List.foldlRecOn (motive := fun s' => s'.setting = s.setting) s.state.handlers (Session.deliver e) rfl
        (fun s' hs' h _ => (setting_deliver s' e h).trans hs')

theorem state_emit (s : Session) (e : Entry) : (s.emit e).state = s.state :=
  congrArg Prod.fst (setting_emit s e)

theorem tree_emit (hless : s.state.Fileless) (e : Entry) : (s.emit e).tree = s.tree := by
  rw [Session.emit]
  split
  · rfl
  · split
    · rw [Session.lastResort]
      split <;> rfl
    · refine (List.foldlRecOn (motive := fun s' => s'.state = s.state ∧ s'.tree = s.tree) s.state.handlers
        (Session.deliver e) ⟨rfl, rfl⟩ (fun s' hs' h _ => ?_)).2
      have hstate : (s'.deliver e h).state = s'.state := congrArg Prod.fst (setting_deliver s' e h)
      rw [hstate, tree_deliver (hs'.1 ▸ hless)]
      exact hs'

theorem tree_emit_of_file {n : Nat} {f : FileSink} {e : Entry} (hhandlers : s.state.handlers = [.ours n])
    (hrunning : s.state.running = [{ number := n, sinks }]) (hfile : sinks.file? = some f)
    (hlevel : s.state.level ≤ e.level) : (s.emit e).tree = f.write s.time s.tree e := by
  have hfind : s.state.running.find? (·.number == n) = some { number := n, sinks } := by simp [hrunning]
  rw [Session.emit, if_neg (Nat.not_lt.mpr hlevel), hhandlers, List.isEmpty_cons, if_neg Bool.false_ne_true,
    List.foldl_cons, List.foldl_nil, Session.deliver, hfind]
  simp only [Session.writeTo, hfile, Option.map_some, Option.getD_some]

theorem setting_emitAll (s : Session) (es : List Entry) : (s.emitAll es).setting = s.setting := by
  induction es generalizing s with
  | nil => rfl
  | cons e es ih => rw [Session.emitAll, List.foldl_cons, ← Session.emitAll, ih, setting_emit]

theorem state_emitAll (s : Session) (es : List Entry) : (s.emitAll es).state = s.state :=
  congrArg Prod.fst (setting_emitAll s es)

theorem current_emitAll (s : Session) (es : List Entry) : (s.emitAll es).current = s.current :=
  congrArg (·.2.1) (setting_emitAll s es)

theorem tree_emitAll (hless : s.state.Fileless) (es : List Entry) : (s.emitAll es).tree = s.tree := by
  induction es generalizing s with
  | nil => rfl
  | cons e es ih =>
      rw [Session.emitAll, List.foldl_cons, ← Session.emitAll, ih ((state_emit s e).symm ▸ hless),
        tree_emit hless]

end Entries

end CodeCompaction.Log
