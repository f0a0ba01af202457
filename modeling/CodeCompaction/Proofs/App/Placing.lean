import Mathlib
import CodeCompaction.Proofs.App.Exits
import CodeCompaction.Proofs.FileTree.Laying

namespace CodeCompaction.App

open CodeCompaction.FileTree CodeCompaction.FileTree.Tree CodeCompaction.Path CodeCompaction.Report

variable {w : World} {t base : Tree} {s : Session} {c : Config.Settings} {k : Nat} {p : Place}
variable {up names : List Text} {files : List (List Text × ByteArray)} {content : List Text → Option Node}
variable {dir path text : Text} {i : Item} {is : List Item}

def fileOf (i : Item) : List Text × ByteArray := (parts (resultName i), encode i.content)

structure Placed (w : World) (c : Config.Settings) (k : Nat) (up : List Text) (i : Item) : Prop where
  path : pathFor w (rootedAt k up) c i = rootedAt k (up ++ (fileOf i).1)
  fits : Fits k up (fileOf i).1
  scalar : i.content.isScalar = true

section Written

theorem dirName_below (h : Rooted k (up ++ (names ++ [text]))) :
    dirName (rootedAt k (up ++ (names ++ [text]))) = rootedAt k (up ++ names) := by
  rw [← List.append_assoc] at h ⊢
  exact dirName_rootedAt h

theorem writeResult_of_write {u v : Tree} (hscalar : text.isScalar = true)
    (hmade : t.makeDirs (dirName path) = { tree := u }) (hwrite : u.write path (encode text) = .ok v) :
    (writeResult t path text).Went ∧ (writeResult t path text).tree = v := by
  have hresult : writeResult t path text =
      { tree := v, entries := [note Log.debug ("Wrote ".toText ++ path)] } := by
    simp only [writeResult, hmade, Text.refusal?_eq_none_iff.mpr hscalar, hwrite]
  rw [hresult]
  exact ⟨⟨rfl, rfl⟩, rfl⟩

theorem laid_writeResult (h : Laid base p t content) (hholds : HoldsOnly files content) (hsite : Site base up p)
    (hup : Rooted k up) (hne : names ≠ []) (hfits : Fits k up names) (hscalar : text.isScalar = true)
    (hapart : Apart (files ++ [(names, encode text)])) :
    (writeResult t (rootedAt k (up ++ names)) text).Went ∧
      Laid base p (writeResult t (rootedAt k (up ++ names)) text).tree
        (withFile content names (encode text)) := by
  rcases List.eq_nil_or_concat' names with rfl | ⟨ds, n, rfl⟩
  · exact absurd rfl hne
  · have habove : ∀ s, s ≠ [] → s <+: ds → content s = none ∨ content s = some .dir := by
      refine fun s _ hs => hholds.dir_or_none hapart (hs.trans (List.prefix_append ds [n])) ?_
      rintro rfl
      exact absurd hs.length_le (by simp)
    obtain ⟨u, hmade, hdirs⟩ :=
      h.makeDirs hsite ⟨.inl rfl, hup.named⟩ (hfits.above.one_slash hup) habove
    obtain ⟨v, hwrite, hfile⟩ :=
      hdirs.write hsite hup hfits (fun _ => hholds.file_or_none hapart hne) (encode text)
    rw [← makeDirs_rootedAt t (hfits.above.rooted hup), ← dirName_below (hfits.rooted hup)] at hmade
    obtain ⟨hwent, htree⟩ := writeResult_of_write hscalar hmade hwrite
    exact ⟨hwent, htree ▸ hfile⟩

theorem writeResult_of_fresh (h : Fresh t (rootedAt k up) p) (hup : Rooted k up) (hne : names ≠ [])
    (hnames : ∀ n ∈ names, isName n = true) : writeResult t (rootedAt k (up ++ names)) text =
      writeResult (t.makeDirs (rootedAt k up)).tree (rootedAt k (up ++ names)) text := by
  rcases List.eq_nil_or_concat' names with rfl | ⟨ds, n, rfl⟩
  · exact absurd rfl hne
  · have hds : ∀ d ∈ ds, isName d = true := fun d hd => hnames d (List.mem_append_left _ hd)
    have hmade := h.makeDirsUp_eq hup hds
    rw [← makeDirs_rootedAt t (hup.below hds), ← makeDirs_rootedAt _ (hup.below hds)] at hmade
    rw [writeResult, writeResult, dirName_below (hup.below hnames), hmade]

theorem not_went_of_long (hlong : maxPathBytes < path.nameSize) : ¬ (writeResult t path text).Went := by
  intro hwent
  obtain ⟨u, -, hwrite⟩ := exists_write_of_writeResult hwent
  obtain ⟨q, hlocate, -⟩ := exists_place_of_write hwrite
  exact absurd (askable_of_locate hlocate).short (Nat.not_le.mpr hlong)

end Written

section Run

theorem fst_fileOf_ne_nil (i : Item) : (fileOf i).1 ≠ [] := Text.pieces_ne_nil _ _

theorem laid_written (h : Laid base p s.tree content) (hholds : HoldsOnly files content) (hsite : Site base up p)
    (hup : Rooted k up) (hi : Placed w c k up i) (hapart : Apart (files ++ [fileOf i])) :
    (written w (rootedAt k up) c s i).Went ∧
      Laid base p (written w (rootedAt k up) c s i).tree (withFile content (fileOf i).1 (fileOf i).2) ∧
      HoldsOnly (files ++ [fileOf i]) (withFile content (fileOf i).1 (fileOf i).2) := by
  obtain ⟨hok, hlaid⟩ := laid_writeResult h hholds hsite hup (fst_fileOf_ne_nil i) hi.fits hi.scalar hapart
  rw [written, hi.path]
  exact ⟨hok, hlaid, hholds.add hapart⟩

theorem Apart.of_isPrefix {more : List (List Text × ByteArray)} (h : Apart more) (hpre : files <+: more) :
    Apart files :=
  fun f hf g hg => h f (hpre.subset hf) g (hpre.subset hg)

structure AllWent (out : Emitted) : Prop where
  went : out.raised? = none
  told : ∀ r ∈ out.reports, r.error = none

theorem allWent_cons_iff : AllWent (sendAll (writeOne w dir c) s (i :: is)) ↔
    (written w dir c s i).Went ∧ AllWent (sendAll (writeOne w dir c) (afterResult w dir c s i) is) := by
  constructor
  · rintro ⟨hwent, htold⟩
    obtain ⟨hi, his⟩ := went_sendAll_cons_iff.mp hwent
    rw [sendAll_cons_of_went hi, List.forall_mem_cons, error_writeOne, session_writeOne] at htold
    rw [raised?_writeOne] at hi
    rw [session_writeOne] at his
    exact ⟨⟨htold.1, hi⟩, his, htold.2⟩
  · rintro ⟨hi, his⟩
    have hone : (writeOne w dir c s i).raised? = none := (raised?_writeOne w dir c s i).trans hi.went
    rw [sendAll_cons_of_went hone, session_writeOne]
    refine ⟨his.went, ?_⟩
    rw [List.forall_mem_cons, error_writeOne]
    exact ⟨hi.told, his.told⟩

theorem laid_sendAll (hless : s.log.state.Fileless) (h : Laid base p s.tree content)
    (hholds : HoldsOnly files content) (hsite : Site base up p) (hup : Rooted k up)
    (hplaced : ∀ i ∈ is, Placed w c k up i) (hapart : Apart (files ++ is.map fileOf)) :
    AllWent (sendAll (writeOne w (rootedAt k up) c) s is) ∧
      ∃ last, Laid base p (sendAll (writeOne w (rootedAt k up) c) s is).session.tree last ∧
        HoldsOnly (files ++ is.map fileOf) last := by
  induction is generalizing s files content with
  | nil =>
      rw [List.map_nil, List.append_nil]
      exact ⟨⟨rfl, List.forall_mem_nil _⟩, content, h, hholds⟩
  | cons i is ih =>
      obtain ⟨hi, his⟩ := List.forall_mem_cons.mp hplaced
      have hsplit : files ++ (i :: is).map fileOf = files ++ [fileOf i] ++ is.map fileOf := by simp
      rw [hsplit] at hapart ⊢
      obtain ⟨hok, hlaid, hmore⟩ :=
        laid_written h hholds hsite hup hi (Apart.of_isPrefix hapart (List.prefix_append _ _))
      rw [← tree_afterResult hless i] at hlaid
      obtain ⟨hrest, hlast⟩ := ih (fileless_afterResult hless i) hlaid hmore his hapart
      have hone : (writeOne w (rootedAt k up) c s i).raised? = none := (raised?_writeOne ..).trans hok.went
      refine ⟨allWent_cons_iff.mpr ⟨hok, hrest⟩, ?_⟩
      rwa [sendAll_cons_of_went hone, session_writeOne]

theorem Session.withTree_withTree (s : Session) (t u : Tree) : (s.withTree t).withTree u = s.withTree u := rfl

theorem sendAll_withTree (h : writeResult t (pathFor w dir c i) i.content =
    writeResult s.tree (pathFor w dir c i) i.content) :
    sendAll (writeOne w dir c) (s.withTree t) (i :: is) = sendAll (writeOne w dir c) s (i :: is) := by
  have hone : writeOne w dir c (s.withTree t) i = writeOne w dir c s i := by
    simp only [writeOne, Session.tree_withTree, h, Session.withTree_withTree]
  rw [sendAll, sendAll, hone]

theorem laid_sendAll_of_fresh (hless : s.log.state.Fileless) (h : Fresh s.tree (rootedAt k up) p)
    (hup : Rooted k up) (hplaced : ∀ i ∈ is, Placed w c k up i) (hapart : Apart (is.map fileOf))
    (hne : is ≠ []) :
    AllWent (sendAll (writeOne w (rootedAt k up) c) s is) ∧
      ∃ last, Laid (s.tree.makeDirs (rootedAt k up)).tree p
          (sendAll (writeOne w (rootedAt k up) c) s is).session.tree last ∧
        HoldsOnly (is.map fileOf) last := by
  obtain ⟨i, is, rfl⟩ := List.exists_cons_of_ne_nil hne
  have hi := hplaced i List.mem_cons_self
  have hnames : ∀ n ∈ (fileOf i).1, isName n = true := fun n hn => (hi.fits.names n hn).1
  have hsame : writeResult (s.tree.makeDirs (rootedAt k up)).tree (pathFor w (rootedAt k up) c i) i.content =
      writeResult s.tree (pathFor w (rootedAt k up) c i) i.content := by
    rw [hi.path]
    exact (writeResult_of_fresh h hup (fst_fileOf_ne_nil i) hnames).symm
  have hless' : (s.withTree (s.tree.makeDirs (rootedAt k up)).tree).log.state.Fileless := by
    rwa [Session.state_withTree]
  have hlaid := h.laid
  rw [← Session.tree_withTree s (s.tree.makeDirs (rootedAt k up)).tree] at hlaid
  rw [← sendAll_withTree hsame]
  exact laid_sendAll hless' hlaid .nothing (h.site hup) hup hplaced hapart

theorem not_allWent_of_long (hi : i ∈ is) (hlong : maxPathBytes < (pathFor w dir c i).nameSize) :
    ¬ AllWent (sendAll (writeOne w dir c) s is) := by
  induction is generalizing s with
  | nil => simp at hi
  | cons j is ih =>
      rw [allWent_cons_iff]
      rintro ⟨hj, his⟩
      rcases List.mem_cons.mp hi with rfl | hi
      · exact not_went_of_long hlong hj
      · exact ih hi his

end Run

end CodeCompaction.App
