import Mathlib
import CodeCompaction.Proofs.App.Survival
import CodeCompaction.Proofs.Batch.Forms
import CodeCompaction.Proofs.Config.Loading
import CodeCompaction.Proofs.Config.Merging
import CodeCompaction.Proofs.FileTree.Making

namespace CodeCompaction.App

open CodeCompaction.FileTree CodeCompaction.Path CodeCompaction.Report

variable {w : World} {argv : List Text} {o : Options} {c : Config.Settings} {s s' : Session}

def collected (w : World) (o : Options) (s : Session) : Inputs :=
  collect w s.tree o.stdinExtension false (pathsOf o)

section Logging

variable {allowed : Log.Entry → Prop}

inductive Told (w : World) (o : Options) (c : Config.Settings) (s : Session) : Log.Entry → Prop
  | found {e} : e ∈ (collected w o s).entries → Told w o c s e
  | batch {e} : e ∈ ((Phase.mk o c s []).answer w).entries → Told w o c s e
  | missing (p : Text) : Told w o c s (note Log.error (missingMessage p))
  | interrupted : Told w o c s (note Log.warning interruption)
  | failed (e : Batch.RunError) : Told w o c s
      (note Log.critical ("Processing failed: ".toText ++ e.message ++ ch '\n' :: batchTrace e))

end Logging

section Endings

end Endings

section Exits

theorem went_printOne_iff {echo several : Bool} {i : Item} : (printOne w echo several s i).raised? = none ↔
    (echo = true → w.Takes (printed several i)) := by
  cases echo with
  | false => simp [printOne]
  | true => simpa [printOne] using went_print_iff

theorem went_sendAll_printOne_iff {echo several : Bool} {is : List Item} :
    (sendAll (printOne w echo several) s is).raised? = none ↔
      (echo = true → ∀ i ∈ is, w.Takes (printed several i)) := by
  induction is generalizing s with
  | nil => simp [sendAll]
  | cons i is ih =>
      rw [went_sendAll_cons_iff, went_printOne_iff, ih, List.forall_mem_cons]
      exact forall_and.symm

theorem error_reports_printOne {echo several : Bool} {s : Session} {is : List Item} :
    ∀ r ∈ (sendAll (printOne w echo several) s is).reports, r.error = none := by
  have herrors : (sendAll (printOne w echo several) s is).reports.map FileReport.error =
      (reported (printOne w echo several) s is).map fun _ => none :=
    map_reports_sendAll (g := fun _ => none) (fun _ _ => rfl) s is
  intro r hr
  have hmem := List.mem_map_of_mem (f := FileReport.error) hr
  rw [herrors] at hmem
  obtain ⟨_, -, hnone⟩ := List.mem_map.mp hmem
  exact hnone.symm

theorem ok_summaryOf_iff {echo : Bool} {is : List Item} :
    (summaryOf c (emitResults w c echo s is).reports).ok = true ↔
      ∀ r ∈ (emitResults w c echo s is).reports, r.error = none := by
  have hok : (summaryOf c (emitResults w c echo s is).reports).ok = true ↔
      ∀ r ∈ (emitResults w c echo s is).reports, Report.Summary.present r.error = none := by
    simp [summaryOf]
  rw [hok]
  refine ⟨fun h => ?_, fun h r hr => by rw [h r hr]; rfl⟩
  cases hdir : outputDir? w c with
  | none =>
      rw [emitResults, hdir]
      exact error_reports_printOne
  | some dir =>
      rw [emitResults, hdir] at h ⊢
      exact error_of_present h

theorem exit_conclude_eq_zero_iff (hcount : c.countTokens = false) {is : List Item} :
    (conclude w o c s is).exit = 0 ↔
      (emitResults w c (!o.json) s is).raised? = none ∧
        (∀ r ∈ (emitResults w c (!o.json) s is).reports, r.error = none) ∧
        w.Takes (shown c o (summaryOf c (emitResults w c (!o.json) s is).reports)) := by
  rw [← ok_summaryOf_iff, exit_conclude hcount]
  simp only [ite_eq_left_iff, Nat.one_ne_zero, imp_false, not_not]

end Exits

section Crash

end Crash

section Unnameable

end Unnameable

end CodeCompaction.App
