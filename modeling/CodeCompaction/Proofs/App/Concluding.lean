import CodeCompaction.Proofs.App.Reach
import CodeCompaction.Proofs.App.Sending

namespace CodeCompaction.App

open CodeCompaction.FileTree CodeCompaction.Report

def World.Takes (w : World) (ts : List Text) : Prop := ∀ t ∈ ts, w.refuses t = none

instance (w : World) (ts : List Text) : Decidable (w.Takes ts) :=
  inferInstanceAs (Decidable (∀ t ∈ ts, w.refuses t = none))

def shown (c : Config.Settings) (o : Options) (summary : Summary) : List Text :=
  if o.json then [Json.indented 2 summary.value ++ [ch '\n']]
  else if o.quiet || c.outputDir.isEmpty then []
  else summary.pieces

variable {w : World} {c : Config.Settings} {o : Options} {s : Session} {is : List Item} {ts : List Text}
  {summary : Summary}

section Printing

theorem Session.log_print (w : World) (s : Session) (ts : List Text) : (s.print w ts).1.log = s.log := by
  induction ts generalizing s with
  | nil => rfl
  | cons t ts ih =>
      rw [Session.print]
      split
      · rfl
      · exact ih _

theorem went_print_iff : (s.print w ts).2 = none ↔ w.Takes ts := by
  induction ts generalizing s with
  | nil => simp [Session.print, World.Takes]
  | cons t ts ih =>
      rw [Session.print, World.Takes, List.forall_mem_cons]
      split
      · rename_i hrefused
        simp [hrefused]
      · rename_i htaken
        rw [ih]
        simp [htaken, World.Takes]

end Printing

section Rendering

theorem log_render (w : World) (c : Config.Settings) (o : Options) (s : Session) (summary : Summary) :
    ∃ t, (render w c o s summary).1.log = (s.complain t).log := by
  have hsilent : s.log = (s.complain []).log := by simp [Session.complain]
  rw [render]
  split
  · exact ⟨[], (Session.log_print ..).trans hsilent⟩
  · split
    · exact ⟨[], hsilent⟩
    · split
      · exact ⟨_, rfl⟩
      · exact ⟨[], (Session.log_print ..).trans hsilent⟩

theorem tree_render (w : World) (c : Config.Settings) (o : Options) (s : Session) (summary : Summary) :
    (render w c o s summary).1.tree = s.tree := by
  obtain ⟨t, hlog⟩ := log_render w c o s summary
  rw [Session.tree, hlog]
  rfl

theorem state_render (w : World) (c : Config.Settings) (o : Options) (s : Session) (summary : Summary) :
    (render w c o s summary).1.log.state = s.log.state := by
  obtain ⟨t, hlog⟩ := log_render w c o s summary
  rw [hlog, Session.state_complain]

theorem went_render_iff : (render w c o s summary).2 = none ↔ w.Takes (shown c o summary) := by
  rw [render, shown]
  split
  · exact went_print_iff
  · cases o.quiet <;> cases c.outputDir.isEmpty <;> simp [World.Takes, went_print_iff]

end Rendering

section Endings

theorem exit_fatal (s : Session) (e : Failure) : (fatal s e).exit = 1 := rfl

theorem exit_ended (n : Nat) (out : Session × Option Failure) :
    (ended n out).exit = if out.2 = none then n else 1 := by
  obtain ⟨s, _ | e⟩ := out <;> rfl

theorem tree_fatal (hless : s.log.state.Fileless) (e : Failure) : (fatal s e).tree = s.tree :=
  Session.tree_emit hless _

theorem tree_ended {out : Session × Option Failure} (hless : out.1.log.state.Fileless) (n : Nat) :
    (ended n out).tree = out.1.tree := by
  obtain ⟨s, _ | e⟩ := out
  · rfl
  · exact tree_fatal hless e

theorem tree_ended_render (hless : s.log.state.Fileless) (summary : Summary) (n : Nat) :
    (ended n (render w c o s summary)).tree = s.tree := by
  rw [tree_ended (by rwa [state_render]), tree_render]

theorem tree_conclude (hless : (emitResults w c (!o.json) s is).session.log.state.Fileless) :
    (conclude w o c s is).tree = (emitResults w c (!o.json) s is).session.tree := by
  simp only [conclude]
  split
  · exact tree_fatal hless _
  · split
    · split
      · rw [tree_fatal (by rwa [Session.state_emit]), Session.tree_emit hless]
      · rw [tree_ended_render (by rwa [Session.state_emit]), Session.tree_emit hless]
    · exact tree_ended_render hless _ _

theorem went_of_exit_zero (hexit : (conclude w o c s is).exit = 0) :
    (emitResults w c (!o.json) s is).raised? = none ∧
      (summaryOf c (emitResults w c (!o.json) s is).reports).ok = true := by
  simp only [conclude] at hexit
  split at hexit
  · simp [exit_fatal] at hexit
  · rename_i hwent
    refine ⟨hwent, ?_⟩
    by_contra hok
    rw [if_neg hok] at hexit
    split at hexit
    · split at hexit
      · simp [exit_fatal] at hexit
      · simp [exit_ended] at hexit
    · simp [exit_ended] at hexit

theorem exit_conclude (hcount : c.countTokens = false) : (conclude w o c s is).exit =
    if (emitResults w c (!o.json) s is).raised? = none ∧
        (summaryOf c (emitResults w c (!o.json) s is).reports).ok = true ∧
        w.Takes (shown c o (summaryOf c (emitResults w c (!o.json) s is).reports)) then 0 else 1 := by
  simp only [conclude, hcount]
  cases hraised : (emitResults w c (!o.json) s is).raised? with
  | some e => simp [exit_fatal]
  | none =>
      simp only [Bool.false_eq_true, if_false, exit_ended, went_render_iff]
      cases (summaryOf c (emitResults w c (!o.json) s is).reports).ok <;> simp

end Endings

end CodeCompaction.App
