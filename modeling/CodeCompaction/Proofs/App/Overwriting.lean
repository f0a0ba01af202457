import CodeCompaction.Proofs.App.Reach
import CodeCompaction.Proofs.App.Sending
import CodeCompaction.Proofs.FileTree.Growth

namespace CodeCompaction.App

open CodeCompaction.FileTree CodeCompaction.FileTree.Tree CodeCompaction.Report

section Results

variable {t : Tree} {path content : Text}

theorem tree_faulty (t : Tree) (intro : Text) (f : Fault) (met path : Text) :
    (Written.faulty t intro f met path).tree = t := by
  rw [Written.faulty]
  split <;> rfl

theorem grows_writeResult (t : Tree) (path content : Text) : Grows t (writeResult t path content).tree := by
  have hmade := (adds_makeDirs t (Path.dirName path)).grows
  have hwrote := wrote_writeResult t path content
  generalize writeResult t path content = out at hwrote ⊢
  cases hwrote with
  | faulty => rwa [tree_faulty]
  | refused _ hwrite => exact hmade.trans (grows_write hwrite)
  | whole _ _ hwrite => exact hmade.trans (grows_write hwrite)

structure Written.Went (out : Written) : Prop where
  told : out.error? = none
  went : out.raised? = none

theorem not_went_faulty {intro met : Text} {f : Fault} : ¬ (Written.faulty t intro f met path).Went := by
  rintro ⟨htold, hwent⟩
  rw [Written.faulty] at htold hwent
  split at hwent <;> simp_all

theorem exists_write_of_writeResult (h : (writeResult t path content).Went) :
    ∃ u, Adds t u ∧ u.write path (encode content) = .ok (writeResult t path content).tree := by
  refine ⟨_, adds_makeDirs t (Path.dirName path), ?_⟩
  have hwrote := wrote_writeResult t path content
  generalize writeResult t path content = out at hwrote h ⊢
  cases hwrote with
  | faulty => exact absurd h not_went_faulty
  | refused => exact absurd h.went (by simp)
  | whole _ _ hwrite => exact hwrite

theorem read_writeResult_self (h : (writeResult t path content).Went) :
    (writeResult t path content).tree.read path = .ok (encode content) := by
  obtain ⟨u, -, hwrite⟩ := exists_write_of_writeResult h
  exact read_write_self hwrite

theorem read_writeResult_of_eq {other : Text} (h : (writeResult t path content).Went)
    (heq : (writeResult t path content).tree.locate other = (writeResult t path content).tree.locate path) :
    (writeResult t path content).tree.read other = .ok (encode content) := by
  rw [read_congr heq, read_writeResult_self h]

theorem read_writeResult_of_ne {other : Text} {bytes : ByteArray}
    (h : (writeResult t path content).Went) (hread : t.read other = .ok bytes)
    (hne : (writeResult t path content).tree.locate other ≠ (writeResult t path content).tree.locate path) :
    (writeResult t path content).tree.read other = .ok bytes := by
  obtain ⟨u, hadds, hwrite⟩ := exists_write_of_writeResult h
  exact read_write_of_ne hwrite (hadds.read hread) hne

theorem message_ne_nil (f : Fault) (path : Text) : f.message path ≠ [] := by
  rw [Fault.message]
  simp [String.toText]

theorem error?_faulty_ne_nil {intro met e : Text} {f : Fault}
    (h : (Written.faulty t intro f met path).error? = some e) : e ≠ [] := by
  rw [Written.faulty] at h
  split at h
  · exact absurd h (by simp)
  · rw [← Option.some.inj h]
    exact message_ne_nil f met

theorem error?_writeResult_ne_nil {e : Text} (h : (writeResult t path content).error? = some e) : e ≠ [] := by
  have hwrote := wrote_writeResult t path content
  generalize writeResult t path content = out at hwrote h
  cases hwrote with
  | faulty => exact error?_faulty_ne_nil h
  | refused => exact absurd h (by simp)
  | whole => exact absurd h (by simp)

end Results

section Sparing

variable {w : World} {dir : Text} {c : Config.Settings} {s : Session} {i : Item} {is : List Item}
variable {paths : List Text} {last : Tree} {p q : Text}

structure Spares (paths : List Text) (t u : Tree) : Prop where
  locate : ∀ q ∈ paths, u.locate q = t.locate q
  read : ∀ q ∈ paths, u.read q = t.read q

theorem Spares.refl (paths : List Text) (t : Tree) : Spares paths t t := ⟨fun _ _ => rfl, fun _ _ => rfl⟩

/-- What the log writes after each result, and before the run ends, spares the paths. -/
inductive LogSpares (w : World) (dir : Text) (c : Config.Settings) (paths : List Text) (last : Tree) :
    Session → List Item → Prop
  | done {s : Session} : Spares paths s.tree last → LogSpares w dir c paths last s []
  | next {s : Session} {i : Item} {is : List Item} :
      Spares paths (written w dir c s i).tree (afterResult w dir c s i).tree →
        LogSpares w dir c paths last (afterResult w dir c s i) is → LogSpares w dir c paths last s (i :: is)

def meets (t : Tree) (p q : Text) : Bool := (t.locate p).toOption == (t.locate q).toOption

def lastAt? (w : World) (dir : Text) (c : Config.Settings) (t : Tree) (q : Text) (is : List Item) :
    Option Item :=
  is.findRev? fun i => meets t (pathFor w dir c i) q

theorem meets_self (t : Tree) (q : Text) : meets t q q = true := by
  simp [meets]

theorem lastAt?_cons (t : Tree) (q : Text) (i : Item) (is : List Item) : lastAt? w dir c t q (i :: is) =
    (lastAt? w dir c t q is).or (if meets t (pathFor w dir c i) q then some i else none) := by
  rw [lastAt?, lastAt?, List.findRev?_eq_find?_reverse, List.findRev?_eq_find?_reverse, List.reverse_cons,
    List.find?_append, List.find?_singleton]

theorem pathFor_ne_of_lastAt?_eq_none {t : Tree} (h : lastAt? w dir c t q is = none) (hi : i ∈ is) :
    pathFor w dir c i ≠ q := by
  rw [lastAt?, List.findRev?_eq_find?_reverse, List.find?_eq_none] at h
  rintro rfl
  exact h i (List.mem_reverse.mpr hi) (meets_self t _)

theorem exists_lastAt? {t : Tree} {i : Item} (hi : i ∈ is) :
    ∃ j, lastAt? w dir c t (pathFor w dir c i) is = some j := by
  cases h : lastAt? w dir c t (pathFor w dir c i) is with
  | some j => exact ⟨j, rfl⟩
  | none => exact absurd rfl (pathFor_ne_of_lastAt?_eq_none h hi)

theorem locate_of_logSpares {x : Place} (hq : q ∈ paths) (hspares : LogSpares w dir c paths last s is)
    (h : s.tree.locate q = .ok x) : last.locate q = .ok x := by
  induction hspares with
  | done hspared => rw [hspared.locate q hq, h]
  | next hspared _ ih =>
      refine ih ?_
      rw [hspared.locate q hq]
      exact locate_of_grows (grows_writeResult _ _ _) h

theorem meets_of_logSpares (hp : p ∈ paths) (hq : q ∈ paths) (hspares : LogSpares w dir c paths last s is)
    {x y : Place} (hx : s.tree.locate p = .ok x) (hy : s.tree.locate q = .ok y) :
    meets last p q = (x == y) := by
  rw [meets, locate_of_logSpares hp hspares hx, locate_of_logSpares hq hspares hy]
  rfl

section Held

variable (hok : (written w dir c s i).Went)

include hok in
theorem read_written {b : ByteArray} (hread : s.tree.read q = .ok b) :
    ((written w dir c s i).tree.locate q = (written w dir c s i).tree.locate (pathFor w dir c i) ∧
        (written w dir c s i).tree.read q = .ok (encode i.content)) ∨
      ((written w dir c s i).tree.locate q ≠ (written w dir c s i).tree.locate (pathFor w dir c i) ∧
        (written w dir c s i).tree.read q = .ok b) := by
  rw [written] at hok ⊢
  by_cases heq : (writeResult s.tree (pathFor w dir c i) i.content).tree.locate q =
      (writeResult s.tree (pathFor w dir c i) i.content).tree.locate (pathFor w dir c i)
  · exact .inl ⟨heq, read_writeResult_of_eq hok heq⟩
  · exact .inr ⟨heq, read_writeResult_of_ne hok hread heq⟩

include hok in
theorem held_written (hheld : (∃ j ∈ i :: is, pathFor w dir c j = q) ∨ ∃ b, s.tree.read q = .ok b) :
    (∃ j ∈ is, pathFor w dir c j = q) ∨ ∃ b, (written w dir c s i).tree.read q = .ok b := by
  rcases hheld with ⟨j, hj, rfl⟩ | ⟨b, hb⟩
  · rcases List.mem_cons.mp hj with rfl | hj
    · exact .inr ⟨_, read_writeResult_self hok⟩
    · exact .inl ⟨j, hj, rfl⟩
  · rcases read_written hok hb with ⟨-, hread⟩ | ⟨-, hread⟩ <;> exact .inr ⟨_, hread⟩

include hok in
theorem read_written_eq_ite (hmine : pathFor w dir c i ∈ paths) (hq : q ∈ paths)
    (hspared : Spares paths (written w dir c s i).tree (afterResult w dir c s i).tree)
    (hlater : LogSpares w dir c paths last (afterResult w dir c s i) is)
    (hheld : pathFor w dir c i = q ∨ ∃ b, s.tree.read q = .ok b) :
    (written w dir c s i).tree.read q =
      if meets last (pathFor w dir c i) q then .ok (encode i.content) else s.tree.read q := by
  have hself : (written w dir c s i).tree.read (pathFor w dir c i) = .ok (encode i.content) :=
    read_writeResult_self hok
  obtain ⟨x, hx, -⟩ := read_eq_ok_iff.mp hself
  have hmeets : ∀ {y}, (written w dir c s i).tree.locate q = .ok y →
      meets last (pathFor w dir c i) q = (x == y) := fun hy =>
    meets_of_logSpares hmine hq hlater ((hspared.locate _ hmine).trans hx) ((hspared.locate q hq).trans hy)
  rcases hheld with rfl | ⟨b, hb⟩
  · rw [hmeets hx, BEq.rfl, if_pos rfl, hself]
  · rcases read_written hok hb with ⟨heq, hread⟩ | ⟨hne, hread⟩
    · rw [hread, hmeets (heq.trans hx), BEq.rfl, if_pos rfl]
    · obtain ⟨y, hy, -⟩ := read_eq_ok_iff.mp hread
      have hxy : (x == y) = false := by
        rw [hx, hy] at hne
        exact beq_eq_false_iff_ne.mpr fun hxy => hne (congrArg _ hxy.symm)
      rw [hread, hb, hmeets hy, hxy, if_neg Bool.false_ne_true]

end Held

theorem read_of_logSpares (hspares : LogSpares w dir c paths last s is)
    (hpaths : ∀ i ∈ is, pathFor w dir c i ∈ paths) (hwent : (sendAll (writeOne w dir c) s is).raised? = none)
    (htold : ∀ r ∈ (sendAll (writeOne w dir c) s is).reports, r.error = none) (hq : q ∈ paths)
    (hheld : (∃ i ∈ is, pathFor w dir c i = q) ∨ ∃ b, s.tree.read q = .ok b) :
    last.read q = ((lastAt? w dir c last q is).map (fun j => .ok (encode j.content))).getD (s.tree.read q) := by
  induction hspares with
  | done hspared => exact hspared.read q hq
  | @next s i is hspared hlater ih =>
      obtain ⟨hraised, hrest⟩ := went_sendAll_cons_iff.mp hwent
      rw [sendAll_cons_of_went hraised, List.forall_mem_cons, error_writeOne, session_writeOne] at htold
      rw [session_writeOne] at hrest
      rw [raised?_writeOne] at hraised
      have hok : (written w dir c s i).Went := ⟨htold.1, hraised⟩
      have hlast := ih (fun j hj => hpaths j (List.mem_cons_of_mem i hj)) hrest htold.2
        ((held_written hok hheld).imp id fun ⟨b, hb⟩ => ⟨b, (hspared.read q hq).trans hb⟩)
      rw [lastAt?_cons]
      cases hafter : lastAt? w dir c last q is with
      | some j =>
          rw [hlast, hafter, Option.some_or, Option.map_some, Option.getD_some, Option.getD_some]
      | none =>
          -- no later result leads there: the path held something before, or it is the one written now
          have hnow : pathFor w dir c i = q ∨ ∃ b, s.tree.read q = .ok b := by
            refine hheld.imp_left (fun ⟨j, hj, heq⟩ => ?_)
            rcases List.mem_cons.mp hj with rfl | hj
            · exact heq
            · exact absurd heq (pathFor_ne_of_lastAt?_eq_none hafter hj)
          rw [hlast, hafter, hspared.read q hq, Option.map_none, Option.getD_none, Option.none_or,
            read_written_eq_ite hok (hpaths i List.mem_cons_self) hq hspared hlater hnow]
          split
          · rw [Option.map_some, Option.getD_some]
          · rw [Option.map_none, Option.getD_none]

theorem present_of_ne {o : Option Text} (h : o ≠ some []) : Summary.present o = o := by
  cases o with
  | none => rfl
  | some e =>
      have he : e ≠ [] := fun hempty => h (hempty ▸ rfl)
      simp [Summary.present, he]

theorem present_writeOne (w : World) (dir : Text) (c : Config.Settings) (s : Session) (i : Item) :
    Summary.present (writeOne w dir c s i).report.error = (writeOne w dir c s i).report.error := by
  rw [error_writeOne]
  exact present_of_ne fun hempty => error?_writeResult_ne_nil hempty (Eq.refl [])

theorem error_of_present (h : ∀ r ∈ (sendAll (writeOne w dir c) s is).reports, Summary.present r.error = none) :
    ∀ r ∈ (sendAll (writeOne w dir c) s is).reports, r.error = none := by
  induction is generalizing s with
  | nil => simp [sendAll]
  | cons i is ih =>
      cases hraised : (writeOne w dir c s i).raised? with
      | some e => simp [sendAll_cons_of_raised hraised]
      | none =>
          rw [sendAll_cons_of_went hraised, List.forall_mem_cons] at h ⊢
          exact ⟨(present_writeOne w dir c s i).symm.trans h.1, ih h.2⟩

end Sparing

section Logless

variable {w : World} {dir : Text} {c : Config.Settings} {s : Session} {is : List Item}

theorem state_afterResult (w : World) (dir : Text) (c : Config.Settings) (s : Session) (i : Item) :
    (afterResult w dir c s i).log.state = s.log.state := by
  rw [afterResult, Session.state_emit, Session.state_withTree]

theorem state_sendAll_writeOne (w : World) (dir : Text) (c : Config.Settings) (s : Session) (is : List Item) :
    (sendAll (writeOne w dir c) s is).session.log.state = s.log.state := by
  refine unchanged_sendAll (f := fun s => s.log.state) (fun s i => ?_) s is
  rw [session_writeOne, state_afterResult]

theorem tree_afterResult (hless : s.log.state.Fileless) (i : Item) :
    (afterResult w dir c s i).tree = (written w dir c s i).tree := by
  have hwith : (s.withTree (written w dir c s i).tree).log.state.Fileless := by
    rwa [Session.state_withTree]
  rw [afterResult, Session.tree_emit hwith, Session.tree_withTree]

theorem fileless_afterResult (hless : s.log.state.Fileless) (i : Item) :
    (afterResult w dir c s i).log.state.Fileless := by
  rwa [state_afterResult]

theorem logSpares_of_fileless (hless : s.log.state.Fileless)
    (hwent : (sendAll (writeOne w dir c) s is).raised? = none) (paths : List Text) :
    LogSpares w dir c paths (sendAll (writeOne w dir c) s is).session.tree s is := by
  induction is generalizing s with
  | nil => exact .done (Spares.refl paths _)
  | cons i is ih =>
      have hspared : Spares paths (written w dir c s i).tree (afterResult w dir c s i).tree := by
        rw [tree_afterResult hless]
        exact Spares.refl paths _
      obtain ⟨hraised, hrest⟩ := went_sendAll_cons_iff.mp hwent
      rw [session_writeOne] at hrest
      rw [sendAll_cons_of_went hraised, session_writeOne]
      exact .next hspared (ih (fileless_afterResult hless i) hrest)

end Logless

end CodeCompaction.App
