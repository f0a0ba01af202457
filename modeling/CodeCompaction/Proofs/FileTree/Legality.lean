import CodeCompaction.Proofs.FileTree.Growth
import CodeCompaction.Proofs.Path.Normal

namespace CodeCompaction.FileTree.Tree

open CodeCompaction.Path

variable {t u : Tree} {links : Nat} {here p : Place} {path : Text} {names ps : List Text} {f : Fault}
  {bytes : ByteArray}

section Faults

theorem raised?_of_follow (h : t.follow links here ps = .error f) : f.raised? = none := by
  fun_induction follow t links here ps with
  | case1 => exact absurd h (by simp)
  | case2 => cases h; split <;> rfl
  | case5 => cases h; rfl
  | case6 => cases h; rfl
  | _ => rename_i ih; exact ih h

theorem raised?_of_locate (hlegal : path.pathRefusal? = none) (h : t.locate path = .error f) :
    f.raised? = none := by
  rw [locate, hlegal] at h
  simp only at h
  split_ifs at h
  · cases h; rfl
  · cases h; rfl
  · exact raised?_of_follow h

theorem dirName_subset (p : Text) : dirName p ⊆ p := by
  have htake : p.take (p.length - (baseName p).length) ⊆ p := List.take_subset _ _
  rw [dirName]
  split
  · exact htake
  · exact fun c hc => htake (List.mem_reverse.mp ((List.dropWhile_sublist _).subset (List.mem_reverse.mp hc)))

theorem raised?_of_makeDir (hlegal : path.pathRefusal? = none) (h : t.makeDir path = .error f) :
    f.raised? = none := by
  rw [makeDir, hlegal] at h
  cases hparent : t.locate (dirName path) with
  | error e =>
      rw [hparent] at h
      cases h
      exact raised?_of_locate (Text.pathRefusal?_of_subset (dirName_subset path) hlegal) hparent
  | ok parent =>
      rw [hparent] at h
      simp only [Option.map_none, Option.elim_none, bind, Except.bind] at h
      split_ifs at h <;> cases h <;> rfl

theorem raised?_of_writable (hlegal : path.pathRefusal? = none) (h : t.writable path = .error f) :
    f.raised? = none := by
  rw [writable] at h
  cases hlocate : t.locate path with
  | error e =>
      rw [hlocate] at h
      cases h
      exact raised?_of_locate hlegal hlocate
  | ok p =>
      rw [hlocate] at h
      simp only [bind, Except.bind] at h
      split at h
      · cases h; rfl
      · exact absurd h (by simp)
      · split at h
        · exact absurd h (by simp)
        · cases h; rfl

theorem raised?_of_write (hlegal : path.pathRefusal? = none) (h : t.write path bytes = .error f) :
    f.raised? = none := by
  rw [write] at h
  cases hwritable : t.writable path with
  | error e =>
      rw [hwritable] at h
      cases h
      exact raised?_of_writable hlegal hwritable
  | ok p => simp [hwritable, bind, Except.bind] at h

theorem raised?_of_openForMore (hlegal : path.pathRefusal? = none) (h : t.openForMore path = .error f) :
    f.raised? = none := by
  rw [openForMore] at h
  cases hwritable : t.writable path with
  | error e =>
      rw [hwritable] at h
      cases h
      exact raised?_of_writable hlegal hwritable
  | ok p => simp [hwritable, bind, Except.bind] at h

end Faults

section Attempts

theorem raised?_ensureDir (hlegal : path.pathRefusal? = none) : (t.ensureDir path).raised? = none := by
  rw [ensureDir]
  split
  · rfl
  · rename_i f h
    rw [Attempt.raised?]
    split
    · rfl
    · exact raised?_of_makeDir hlegal h

theorem rooted_subset (name : Text) (up : List Text) : rooted up ⊆ rooted (name :: up) := by
  rw [rooted, rooted, List.reverse_cons]
  exact List.cons_subset_cons _ (slashed_isPrefix up.reverse [name]).subset

theorem raised?_makeDirsUp (hlegal : (rooted names).pathRefusal? = none) :
    (t.makeDirsUp names).raised? = none := by
  induction names generalizing t with
  | nil => exact raised?_ensureDir hlegal
  | cons name up ih =>
      have habove : (if t.contains (rooted up) then ({ tree := t } : Attempt) else t.makeDirsUp up).raised? = none := by
        split
        · rfl
        · exact ih (Text.pathRefusal?_of_subset (rooted_subset name up) hlegal)
      rw [makeDirsUp]
      split
      · exact raised?_ensureDir hlegal
      · exact habove
      · exact raised?_ensureDir hlegal

theorem raised?_makeDirs (hlegal : path.pathRefusal? = none) : (t.makeDirs path).raised? = none := by
  refine raised?_makeDirsUp (Text.pathRefusal?_eq_none_iff.mpr fun c hc => ?_)
  rw [rooted, List.reverse_reverse] at hc
  rcases List.mem_cons.mp hc with rfl | hc
  · rfl
  · rcases mem_slashed hc with rfl | ⟨n, hn, hc⟩
    · rfl
    · have hmem := Text.mem_of_mem_pieces (List.mem_of_mem_filter hn) hc
      exact Text.pathRefusal?_eq_none_iff.mp hlegal c hmem

end Attempts

section Rooted

variable {k : Nat} {n : Text}

theorem subset_slashed (hn : n ∈ names) : n ⊆ slashed names := by
  induction names with
  | nil => exact absurd hn List.not_mem_nil
  | cons m names ih =>
      by_cases hne : names = []
      · subst hne
        rw [List.mem_singleton.mp hn, slashed_singleton]
        exact List.Subset.refl m
      · rw [slashed_cons m hne]
        rcases List.mem_cons.mp hn with rfl | hn
        · exact List.subset_append_left _ _
        · exact fun c hc => List.mem_append_right m (List.mem_cons_of_mem _ (ih hn hc))

theorem pathRefusal?_rootedAt_eq_none_iff :
    (rootedAt k names).pathRefusal? = none ↔ ∀ n ∈ names, n.pathRefusal? = none := by
  constructor
  · intro h n hn
    exact Text.pathRefusal?_of_subset (fun c hc => List.mem_append_right _ (subset_slashed hn hc)) h
  · intro h
    refine Text.pathRefusal?_eq_none_iff.mpr fun c hc => ?_
    rcases List.mem_append.mp hc with hc | hc
    · rw [List.eq_of_mem_replicate hc]
      rfl
    · rcases mem_slashed hc with rfl | ⟨n, hn, hc⟩
      · rfl
      · exact Text.pathRefusal?_eq_none_iff.mp (h n hn) c hc

end Rooted

end CodeCompaction.FileTree.Tree
