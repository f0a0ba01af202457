import Mathlib
import CodeCompaction.Proofs.FileTree.Legality
import CodeCompaction.Proofs.Log.Fileless

namespace CodeCompaction.Log

open CodeCompaction.FileTree

variable {s : Session} {st : State}

namespace State

def ours (st : State) : List Handler := st.handlers.filter Handler.isOurs

def others (st : State) : List Handler := st.handlers.filter (!·.isOurs)

structure Fresh (st : State) : Prop where
  foreign : ∀ h ∈ st.handlers, h.isOurs = false
  unset : st.configured = false
  unheard : st.listener? = none
  quiet : st.running = []

structure Owned (st : State) : Prop where
  ours : st.ours = st.listener?.toList.map fun l => .ours l.number
  configured : st.configured = st.listener?.isSome
  sole : st.Sole

theorem Fresh.ours_eq (h : st.Fresh) : st.ours = [] :=
  List.filter_eq_nil_iff.mpr fun x hx => by simp [h.foreign x hx]

theorem Fresh.owned (h : st.Fresh) : st.Owned where
  ours := by rw [h.ours_eq, h.unheard]; rfl
  configured := by rw [h.unset, h.unheard]; rfl
  sole := by rw [Sole, h.quiet, h.unheard]; rfl

theorem ours_shutdown (st : State) : st.shutdown.ours = [] := by
  simp [ours, shutdown, List.filter_filter]

theorem others_shutdown (st : State) : st.shutdown.others = st.others := by
  simp [others, shutdown, List.filter_filter]

theorem owned_shutdown (h : st.Owned) : st.shutdown.Owned where
  ours := ours_shutdown st
  configured := rfl
  sole := running_shutdown h.sole st.level

theorem others_install (st : State) (sinks : Sinks) : (st.install sinks).others = st.others := by
  rw [install]
  split
  · rfl
  · simp [others, Handler.isOurs]

theorem others_reset (st : State) (level : Level) (sinks : Sinks) :
    (st.reset level sinks).others = st.others := by
  rw [reset, others_install, others_shutdown]
  rfl

theorem owned_reset (h : st.Owned) (level : Level) (sinks : Sinks) : (st.reset level sinks).Owned := by
  have hours := ours_shutdown { st with level }
  refine ⟨?_, ?_, sole_reset h.sole level sinks⟩
  · rw [reset, install]
    split
    · exact hours
    · rw [ours] at hours ⊢
      simp only [List.filter_append, hours]
      rfl
  · rw [reset, install]
    split <;> rfl

theorem owned_attach (h : st.Owned) (owner : Nat) : (st.attach owner).Owned := by
  rw [attach]
  split
  · exact h
  · refine ⟨?_, h.configured, h.sole⟩
    rw [← h.ours]
    simp [ours, Handler.isOurs]

theorem others_attach (st : State) (owner : Nat) : (st.attach owner).others =
    if st.others.contains (.foreign owner) then st.others else st.others ++ [.foreign owner] := by
  have hmem : st.others.contains (.foreign owner) = st.handlers.contains (.foreign owner) := by
    rw [Bool.eq_iff_iff, List.contains_iff_mem, List.contains_iff_mem, others, List.mem_filter]
    simp [Handler.isOurs]
  rw [hmem, attach]
  split
  · rfl
  · simp [others, Handler.isOurs]

theorem owned_detach (h : st.Owned) (owner : Nat) : (st.detach owner).Owned := by
  have habsent : .foreign owner ∉ st.ours := fun hmem =>
    absurd (List.mem_filter.mp hmem).2 (by simp [Handler.isOurs])
  refine ⟨?_, h.configured, h.sole⟩
  rw [ours, detach, ← List.erase_filter, ← ours, List.erase_of_not_mem habsent]
  exact h.ours

theorem others_detach (st : State) (owner : Nat) :
    (st.detach owner).others = st.others.erase (.foreign owner) :=
  List.erase_filter.symm

end State

inductive Step where
  | configure (c : Settings) (force : Bool)
  | abandon (level : Level)
  | shutdown
  | attach (owner : Nat)
  | detach (owner : Nat)
  | emit (e : Entry)
  | files (t : Tree)

namespace Step

def apply (s : Session) : Step → Session
  | configure c force => s.configure c force
  | abandon level => { s with state := s.state.reset level {} }
  | shutdown => s.shutdown
  | attach owner => s.attach owner
  | detach owner => s.detach owner
  | emit e => s.emit e
  | files t => { s with tree := t }

def isHosts : Step → Bool
  | attach _ => true
  | detach _ => true
  | _ => false

def host (handlers : List Handler) : Step → List Handler
  | attach owner => if handlers.contains (.foreign owner) then handlers else handlers ++ [.foreign owner]
  | detach owner => handlers.erase (.foreign owner)
  | _ => handlers

theorem host_of_not_isHosts {step : Step} (h : step.isHosts = false) (handlers : List Handler) :
    step.host handlers = handlers := by
  cases step with
  | attach owner => simp [isHosts] at h
  | detach owner => simp [isHosts] at h
  | _ => rfl

end Step

namespace Session

def after (s : Session) (steps : List Step) : Session := steps.foldl Step.apply s

theorem raised?_openFile {t : Tree} {current path : Text} {c : Settings} {f : Fault}
    (hlegal : (Path.absolute current c.logFile).pathRefusal? = none)
    (h : (openFile t current c).2 = .error (f, path)) : f.raised? = none := by
  have hdir : (Path.dirName (Path.absolute current c.logFile)).pathRefusal? = none :=
    Text.pathRefusal?_of_subset (Tree.dirName_subset _) hlegal
  have hmade : (t.makeDirs (Path.dirName (Path.absolute current c.logFile))).raised? = none :=
    Tree.raised?_makeDirs hdir
  rw [openFile] at h
  split at h
  · rename_i e he
    obtain rfl : e = (f, path) := Except.error.inj h
    simpa [Tree.Attempt.raised?, he] using hmade
  · split at h
    · exact absurd h (by simp)
    · rename_i e he
      obtain ⟨rfl, -⟩ := Prod.mk.inj (Except.error.inj h)
      exact Tree.raised?_of_openForMore hlegal he

theorem configuring_of_legal {c : Settings}
    (hlegal : c.logFile = [] ∨ (Path.absolute s.current c.logFile).pathRefusal? = none) (force : Bool) :
    (s.configuring c force).2 = none := by
  rw [configuring]
  split
  · rfl
  · rw [configuringAnew]
    split
    · rfl
    · rename_i hfile
      have hpath := hlegal.resolve_left (by simpa using hfile)
      split
      · rfl
      · rename_i hopen
        rw [raised?_openFile hpath (congrArg Prod.snd hopen)]

theorem configured_of_console {c : Settings} (hconsole : c.console = true)
    (hset : (s.configuring c true).2 = none) : (s.configure c true).state.configured = true := by
  obtain ⟨sinks, hreset, hsinks, -⟩ := exists_reset_configuringAnew s c
  rw [configuring_true] at hset
  have hfull : sinks.isEmpty = false := by simp [Sinks.isEmpty, hsinks hset, consoleSink?, hconsole]
  rw [configure, configuring_true, hreset, State.reset, State.install, hfull]
  rfl

theorem configure_of_configured (h : s.state.configured = true) (c : Settings) : s.configure c false = s := by
  rw [configure, configuring, h]
  rfl

theorem owned_configure (h : s.state.Owned) (c : Settings) (force : Bool) :
    (s.configure c force).state.Owned := by
  rw [configure, configuring]
  split
  · exact h
  · obtain ⟨sinks, hreset, -, -⟩ := exists_reset_configuringAnew s c
    rw [hreset]
    exact State.owned_reset h c.level sinks

theorem others_configure (s : Session) (c : Settings) (force : Bool) :
    (s.configure c force).state.others = s.state.others := by
  rw [configure, configuring]
  split
  · rfl
  · obtain ⟨sinks, hreset, -, -⟩ := exists_reset_configuringAnew s c
    rw [hreset]
    exact State.others_reset s.state c.level sinks

theorem owned_apply (h : s.state.Owned) (step : Step) : (step.apply s).state.Owned := by
  cases step with
  | configure c force => exact owned_configure h c force
  | abandon level => exact State.owned_reset h level {}
  | shutdown => exact State.owned_shutdown h
  | attach owner => exact State.owned_attach h owner
  | detach owner => exact State.owned_detach h owner
  | emit e => exact (state_emit s e).symm ▸ h
  | files t => exact h

theorem others_apply (s : Session) (step : Step) :
    (step.apply s).state.others = step.host s.state.others := by
  cases step with
  | configure c force => exact others_configure s c force
  | abandon level => exact State.others_reset s.state level {}
  | shutdown => exact State.others_shutdown s.state
  | attach owner => exact State.others_attach s.state owner
  | detach owner => exact State.others_detach s.state owner
  | emit e => exact congrArg State.others (state_emit s e)
  | files t => rfl

theorem owned_after (h : s.state.Owned) (steps : List Step) : (s.after steps).state.Owned := by
  induction steps generalizing s with
  | nil => exact h
  | cons step steps ih => exact ih (owned_apply h step)

theorem others_after (s : Session) (steps : List Step) :
    (s.after steps).state.others = steps.foldl Step.host s.state.others := by
  induction steps generalizing s with
  | nil => rfl
  | cons step steps ih => rw [after, List.foldl_cons, ← after, ih, others_apply, List.foldl_cons]

end Session

theorem one_handler_of_ours {start : Session} (h : start.state.Fresh) (steps : List Step) :
    let s := start.after steps
    s.state.ours.length ≤ 1 ∧
    (s.state.ours.length = 1 ↔ s.state.configured = true) ∧
    (s.state.configured = true ↔ s.state.listener?.isSome = true) ∧
    s.state.ours = (s.state.listener?.toList.map fun l => .ours l.number) ∧
    s.state.running = s.state.listener?.toList ∧
    s.state.others = steps.foldl Step.host start.state.handlers ∧
    (∀ step : Step, step.isHosts = false → (step.apply s).state.others = s.state.others) ∧
    (s.state.configured = true → ∀ c, s.configure c false = s) := by
  intro s
  have howned : s.state.Owned := Session.owned_after h.owned steps
  have hlen : s.state.ours.length = s.state.listener?.toList.length := by rw [howned.ours, List.length_map]
  have hothers : start.state.others = start.state.handlers :=
    List.filter_eq_self.mpr fun x hx => by simp [h.foreign x hx]
  refine ⟨?_, ?_, ?_, howned.ours, howned.sole, ?_, ?_, Session.configure_of_configured⟩
  · rw [hlen]
    cases s.state.listener? <;> simp
  · rw [hlen, howned.configured]
    cases s.state.listener? <;> simp
  · rw [howned.configured]
  · rw [← hothers]
    exact Session.others_after start steps
  · intro step hstep
    rw [Session.others_apply, Step.host_of_not_isHosts hstep]

theorem one_handler_of_ours_among_others :
    let start : Session := { state := { handlers := [.foreign 7] }, tree := {}, current := [ch '/'], time := [] }
    let lost : Settings := { logFile := "no/way.log".toText, level := error }
    let blocked : Tree := { entries := [([[ch 'n', 'o']], .file .empty)] }
    let earlier : List Step := [.configure {} false, .attach 8, .configure { console := false } true,
      .configure {} false, .detach 7, .attach 7, .files blocked]
    let s := start.after (earlier ++ [.configure lost true])
    start.state.Fresh ∧ s.state.configured = true ∧ s.state.ours.length = 1 ∧
      s.state.others = [.foreign 8, .foreign 7] ∧ s.configure { level := debug } false = s := by
  intro start lost blocked earlier s
  have hfresh : start.state.Fresh := ⟨by simp [start, Handler.isOurs], rfl, rfl, rfl⟩
  have hrun : start.after (earlier ++ [.configure lost true]) = s := rfl
  have hlast : s = (start.after earlier).configure lost true := List.foldl_concat ..
  have hcurrent : (start.after earlier).current = [ch '/'] := rfl
  have hlegal : (Path.absolute (start.after earlier).current lost.logFile).pathRefusal? = none := by
    rw [hcurrent]
    decide
  -- from here on the session is a name, so that nothing below computes it
  clear_value s
  have hset : s.state.configured = true :=
    hlast ▸ Session.configured_of_console rfl (Session.configuring_of_legal (.inr hlegal) true)
  have howned := one_handler_of_ours hfresh (earlier ++ [.configure lost true])
  rw [hrun] at howned
  obtain ⟨-, hours, -, -, -, hothers, -, hsame⟩ := howned
  exact ⟨hfresh, hset, hours.mpr hset, hothers.trans (by decide), hsame hset _⟩

end CodeCompaction.Log
