import Mathlib
import CodeCompaction.App.Run
import CodeCompaction.Proofs.FileTree.Legality

namespace CodeCompaction.App

open CodeCompaction.FileTree CodeCompaction.FileTree.Tree CodeCompaction.Report

section Sending

variable {α : Type} {send : Session → α → Sent} {s : Session} {x : α} {xs : List α}

theorem sendAll_cons_of_raised {e : Failure} (h : (send s x).raised? = some e) (xs : List α) :
    sendAll send s (x :: xs) = { session := (send s x).session, reports := [], raised? := some e } := by
  simp only [sendAll, h]

theorem sendAll_cons_of_went (h : (send s x).raised? = none) (xs : List α) :
    sendAll send s (x :: xs) =
      { sendAll send (send s x).session xs with
        reports := (send s x).report :: (sendAll send (send s x).session xs).reports } := by
  simp only [sendAll, h]

theorem went_sendAll_cons_iff : (sendAll send s (x :: xs)).raised? = none ↔
    (send s x).raised? = none ∧ (sendAll send (send s x).session xs).raised? = none := by
  cases h : (send s x).raised? with
  | some e => simp [sendAll_cons_of_raised h]
  | none => simp [sendAll_cons_of_went h]

theorem unchanged_sendAll {β : Type} {f : Session → β} (h : ∀ s x, f (send s x).session = f s) (s : Session)
    (xs : List α) : f (sendAll send s xs).session = f s := by
  induction xs generalizing s with
  | nil => rfl
  | cons x xs ih =>
      cases hraised : (send s x).raised? with
      | some e => rw [sendAll_cons_of_raised hraised, h]
      | none => rw [sendAll_cons_of_went hraised, ih, h]

/-- Those that were sent or that were to be, in order: one that puts an end to the run is the last. -/
def attempted (send : Session → α → Sent) : Session → List α → List α
  | _, [] => []
  | s, x :: xs =>
      match (send s x).raised? with
      | some _ => [x]
      | none => x :: attempted send (send s x).session xs

theorem attempted_cons_of_raised {e : Failure} (h : (send s x).raised? = some e) (xs : List α) :
    attempted send s (x :: xs) = [x] := by
  simp only [attempted, h]

theorem attempted_cons_of_went (h : (send s x).raised? = none) (xs : List α) :
    attempted send s (x :: xs) = x :: attempted send (send s x).session xs := by
  simp only [attempted, h]

theorem attempted_isPrefix (send : Session → α → Sent) (s : Session) (xs : List α) :
    attempted send s xs <+: xs := by
  induction xs generalizing s with
  | nil => exact List.prefix_rfl
  | cons x xs ih =>
      cases h : (send s x).raised? with
      | some e =>
          rw [attempted_cons_of_raised h]
          exact List.prefix_append [x] xs
      | none =>
          rw [attempted_cons_of_went h, List.prefix_cons_inj]
          exact ih _

theorem attempted_eq_nil_iff : attempted send s xs = [] ↔ xs = [] := by
  cases xs with
  | nil => exact Iff.rfl
  | cons x xs => cases h : (send s x).raised? <;> simp [attempted, h]

theorem ne_nil_of_raised {e : Failure} (h : (sendAll send s xs).raised? = some e) : xs ≠ [] := by
  rintro rfl
  simp [sendAll] at h

theorem attempted_of_went (h : (sendAll send s xs).raised? = none) : attempted send s xs = xs := by
  induction xs generalizing s with
  | nil => rfl
  | cons x xs ih =>
      obtain ⟨hx, hxs⟩ := went_sendAll_cons_iff.mp h
      rw [attempted_cons_of_went hx, ih hxs]

def reported (send : Session → α → Sent) (s : Session) (xs : List α) : List α :=
  match (sendAll send s xs).raised? with
  | some _ => (attempted send s xs).dropLast
  | none => attempted send s xs

theorem reported_of_went (h : (sendAll send s xs).raised? = none) : reported send s xs = xs := by
  rw [reported, h, attempted_of_went h]

theorem reported_cons_of_raised {e : Failure} (h : (send s x).raised? = some e) (xs : List α) :
    reported send s (x :: xs) = [] := by
  rw [reported, sendAll_cons_of_raised h, attempted_cons_of_raised h]
  rfl

theorem reported_cons_of_went (h : (send s x).raised? = none) (xs : List α) :
    reported send s (x :: xs) = x :: reported send (send s x).session xs := by
  rw [reported, sendAll_cons_of_went h, attempted_cons_of_went h, reported]
  cases hrest : (sendAll send (send s x).session xs).raised? with
  | none => rfl
  | some e =>
      have hne : attempted send (send s x).session xs ≠ [] := mt attempted_eq_nil_iff.mp (ne_nil_of_raised hrest)
      exact List.dropLast_cons_of_ne_nil hne

theorem forall₂_reports_sendAll {R : FileReport → α → Prop} (h : ∀ s x, R (send s x).report x) (s : Session)
    (xs : List α) : List.Forall₂ R (sendAll send s xs).reports (reported send s xs) := by
  induction xs generalizing s with
  | nil => exact .nil
  | cons x xs ih =>
      cases hraised : (send s x).raised? with
      | some e =>
          rw [sendAll_cons_of_raised hraised, reported_cons_of_raised hraised]
          exact .nil
      | none =>
          rw [sendAll_cons_of_went hraised, reported_cons_of_went hraised]
          exact .cons (h s x) (ih _)

theorem map_reports_sendAll {β : Type} {f : FileReport → β} {g : α → β}
    (h : ∀ s x, f (send s x).report = g x) (s : Session) (xs : List α) :
    (sendAll send s xs).reports.map f = (reported send s xs).map g := by
  rw [← List.forall₂_eq_eq_eq, List.forall₂_map_left_iff, List.forall₂_map_right_iff]
  exact forall₂_reports_sendAll h s xs

theorem length_reports_of_raised {e : Failure} (h : (sendAll send s xs).raised? = some e) :
    (sendAll send s xs).reports.length < xs.length := by
  have hreports : (sendAll send s xs).reports.length = (reported send s xs).length :=
    (forall₂_reports_sendAll (R := fun _ _ => True) (fun _ _ => trivial) s xs).length_eq
  have hfront := (attempted_isPrefix send s xs).length_le
  have hpos : 0 < xs.length := List.length_pos_iff.mpr (ne_nil_of_raised h)
  rw [reported, h, List.length_dropLast] at hreports
  omega

def before (send : Session → α → Sent) (s : Session) (xs : List α) (k : Nat) : Session :=
  (sendAll send s (xs.take k)).session

theorem getElem?_reports_sendAll (h : (sendAll send s xs).raised? = none) (k : Nat) :
    (sendAll send s xs).reports[k]? = xs[k]?.map fun x => (send (before send s xs k) x).report := by
  induction xs generalizing s k with
  | nil => rfl
  | cons x xs ih =>
      obtain ⟨hx, hxs⟩ := went_sendAll_cons_iff.mp h
      rw [sendAll_cons_of_went hx]
      cases k with
      | zero => rfl
      | succ k =>
          simp only [List.getElem?_cons_succ, ih hxs, before, List.take_succ_cons, sendAll_cons_of_went hx]

theorem before_succ (h : (sendAll send s xs).raised? = none) {k : Nat} (hx : xs[k]? = some x) :
    before send s xs (k + 1) = (send (before send s xs k) x).session := by
  induction xs generalizing s k with
  | nil => simp at hx
  | cons y xs ih =>
      obtain ⟨hy, hxs⟩ := went_sendAll_cons_iff.mp h
      cases k with
      | zero =>
          obtain rfl := Option.some.inj hx
          simp [before, sendAll_cons_of_went hy, sendAll]
      | succ k =>
          rw [List.getElem?_cons_succ] at hx
          have hrest := ih hxs hx
          simp only [before, List.take_succ_cons, sendAll_cons_of_went hy] at hrest ⊢
          exact hrest

theorem before_length (send : Session → α → Sent) (s : Session) (xs : List α) :
    before send s xs xs.length = (sendAll send s xs).session := by
  rw [before, List.take_length]

theorem sendAll_map {β : Type} (f : β → α) (s : Session) (ys : List β) :
    sendAll (fun s y => send s (f y)) s ys = sendAll send s (ys.map f) := by
  induction ys generalizing s with
  | nil => rfl
  | cons y ys ih => simp only [List.map_cons, sendAll, ih]

end Sending

section Result

variable {t u : Tree} {intro path met content : Text} {f : Fault}

inductive Wrote (t : Tree) (path content : Text) : Written → Prop
  | faulty {f : Fault} (intro met : Text) : (path.pathRefusal? = none → f.raised? = none) →
      Wrote t path content (.faulty (t.makeDirs (Path.dirName path)).tree intro f met path)
  | refused {u : Tree} {e : Failure} : content.refusal? = some e →
      (t.makeDirs (Path.dirName path)).tree.write path .empty = .ok u →
      Wrote t path content { tree := u, raised? := some e }
  | whole {u : Tree} (entries : List Log.Entry) : content.refusal? = none →
      (t.makeDirs (Path.dirName path)).tree.write path (encode content) = .ok u →
      Wrote t path content { tree := u, entries }

theorem wrote_writeResult (t : Tree) (path content : Text) :
    Wrote t path content (writeResult t path content) := by
  have hmade : path.pathRefusal? = none → (t.makeDirs (Path.dirName path)).raised? = none := fun hlegal =>
    raised?_makeDirs (Text.pathRefusal?_of_subset (dirName_subset path) hlegal)
  rw [writeResult]
  cases hfault : (t.makeDirs (Path.dirName path)).fault? with
  | some fault =>
      obtain ⟨f, met⟩ := fault
      refine .faulty _ met fun hlegal => ?_
      simpa [Attempt.raised?, hfault] using hmade hlegal
  | none =>
      cases hrefusal : content.refusal? with
      | some e =>
          cases hwrite : (t.makeDirs (Path.dirName path)).tree.write path .empty with
          | error f => exact .faulty _ path fun hlegal => raised?_of_write hlegal hwrite
          | ok u => exact .refused hrefusal hwrite
      | none =>
          cases hwrite : (t.makeDirs (Path.dirName path)).tree.write path (encode content) with
          | error f => exact .faulty _ path fun hlegal => raised?_of_write hlegal hwrite
          | ok u => exact .whole _ hrefusal hwrite

theorem went_writeResult (hlegal : path.pathRefusal? = none) (hscalar : content.isScalar = true) :
    (writeResult t path content).raised? = none := by
  have hwrote := wrote_writeResult t path content
  generalize writeResult t path content = out at hwrote ⊢
  cases hwrote with
  | faulty intro met hraised => rw [Written.faulty, hraised hlegal]
  | refused hrefusal _ => simp [Text.refusal?_eq_none_iff.mpr hscalar] at hrefusal
  | whole _ _ _ => rfl

theorem raised_writeResult_of_lone (hlone : content.isScalar = false)
    (hmade : (t.makeDirs (Path.dirName path)).fault? = none)
    (hopen : (t.makeDirs (Path.dirName path)).tree.write path .empty = .ok u) :
    (writeResult t path content).raised? ≠ none := by
  have hrefused : content.refusal? ≠ none := by simp [Text.refusal?_eq_none_iff, hlone]
  obtain ⟨e, he⟩ := Option.ne_none_iff_exists'.mp hrefused
  simp [writeResult, hmade, he, hopen]

end Result

section Writing

variable {w : World} {dir : Text} {c : Config.Settings} {s : Session} {i : Item} {is : List Item}

def written (w : World) (dir : Text) (c : Config.Settings) (s : Session) (i : Item) : Written :=
  writeResult s.tree (pathFor w dir c i) i.content

def afterResult (w : World) (dir : Text) (c : Config.Settings) (s : Session) (i : Item) : Session :=
  (s.withTree (written w dir c s i).tree).emit (written w dir c s i).entries

theorem session_writeOne (w : World) (dir : Text) (c : Config.Settings) (s : Session) (i : Item) :
    (writeOne w dir c s i).session = afterResult w dir c s i := by
  rw [writeOne, afterResult, written]

theorem raised?_writeOne (w : World) (dir : Text) (c : Config.Settings) (s : Session) (i : Item) :
    (writeOne w dir c s i).raised? = (written w dir c s i).raised? := by
  rw [writeOne, written]

theorem error_writtenReport (path : Text) (e : Option Text) (i : Item) : (writtenReport path e i).error = e := rfl

theorem error_writeOne (w : World) (dir : Text) (c : Config.Settings) (s : Session) (i : Item) :
    (writeOne w dir c s i).report.error = (written w dir c s i).error? := by
  rw [writeOne, error_writtenReport, written]

theorem outputPath_writeOne (w : World) (dir : Text) (c : Config.Settings) (s : Session) (i : Item) :
    (writeOne w dir c s i).report.outputPath = some (pathFor w dir c i) := rfl

theorem went_sendAll_writeOne (hlegal : ∀ i ∈ is, (pathFor w dir c i).pathRefusal? = none)
    (hscalar : ∀ i ∈ is, i.content.isScalar = true) : (sendAll (writeOne w dir c) s is).raised? = none := by
  induction is generalizing s with
  | nil => rfl
  | cons i is ih =>
      rw [List.forall_mem_cons] at hlegal hscalar
      refine went_sendAll_cons_iff.mpr ⟨?_, ih hlegal.2 hscalar.2⟩
      rw [raised?_writeOne]
      exact went_writeResult hlegal.1 hscalar.1

theorem emitResults_of_dir (hdir : outputDir? w c = some dir) (echo : Bool) (s : Session) (is : List Item) :
    emitResults w c echo s is = sendAll (writeOne w dir c) s is := by
  rw [emitResults, hdir]

theorem outputDir?_eq_none (hdir : c.outputDir = []) : outputDir? w c = none := by
  rw [outputDir?, hdir]
  rfl

theorem emitResults_of_no_dir (hdir : c.outputDir = []) (echo : Bool) (s : Session) (is : List Item) :
    emitResults w c echo s is = sendAll (printOne w echo (1 < is.length)) s is := by
  rw [emitResults, outputDir?_eq_none hdir]

end Writing

end CodeCompaction.App
