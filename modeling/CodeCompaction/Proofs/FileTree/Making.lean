import Mathlib.Data.List.Infix
import CodeCompaction.Proofs.FileTree.Following

namespace CodeCompaction.FileTree.Tree

open CodeCompaction.Path

variable {t u : Tree} {k : Nat} {p x : Place} {up names ds : List Text} {n : Text}

section Making

theorem rooted_reverse (names : List Text) : rooted names.reverse = rootedAt 1 names := by
  rw [rooted, List.reverse_reverse]
  rfl

theorem makeDirs_rootedAt (t : Tree) (h : Rooted k names) :
    t.makeDirs (rootedAt k names) = t.makeDirsUp names.reverse := by
  rw [makeDirs, parts_rootedAt h]

theorem rooted_root : Rooted 1 [] := ⟨.inl rfl, List.forall_mem_nil _⟩

theorem locate_root (t : Tree) : t.locate (rootedAt 1 []) = .ok [] := by
  rw [locate_rootedAt rooted_root ⟨rfl, by decide⟩, follow]

theorem makeDir_root (t : Tree) : t.makeDir (rootedAt 1 []) = .error .exists := by
  have hdir : dirName (rootedAt 1 []) = rootedAt 1 [] := by decide
  have hbase : baseName (rootedAt 1 []) = [] := by decide
  have hlegal : (rootedAt 1 []).pathRefusal? = none := rfl
  rw [makeDir, hlegal, hdir, hbase, locate_root]
  rfl

theorem makeDir_of_contains (h : Rooted 1 (names ++ [n]))
    (hthere : t.contains (rootedAt 1 (names ++ [n])) = true) (u : Tree) :
    t.makeDir (rootedAt 1 (names ++ [n])) ≠ .ok u := by
  intro hmade
  obtain ⟨x, hx, -, -, hname⟩ := exists_above h hthere
  rw [makeDir] at hmade
  obtain ⟨-, -, hmade⟩ := exists_of_bind_eq_ok hmade
  rw [dirName_rootedAt h, hx, baseName_rootedAt h, List.getLast?_concat, Option.getD_some] at hmade
  simp only [bind, Except.bind] at hmade
  split_ifs at hmade

theorem ensureDir_of_isDir (h : Rooted 1 names) (hdir : t.isDir (rootedAt 1 names) = true) :
    t.ensureDir (rootedAt 1 names) = { tree := t } := by
  have hmade : ∀ u, t.makeDir (rootedAt 1 names) ≠ .ok u := by
    rcases List.eq_nil_or_concat' names with rfl | ⟨init, n, rfl⟩
    · simp [makeDir_root]
    · exact makeDir_of_contains h (contains_of_isDir hdir)
  rw [ensureDir]
  split
  · rename_i u hu
    exact absurd hu (hmade u)
  · rw [if_pos hdir]

theorem makeDirsUp_concat (t : Tree) (names : List Text) (n : Text) :
    t.makeDirsUp (names ++ [n]).reverse =
      let above : Attempt :=
        if t.contains (rootedAt 1 names) then { tree := t } else t.makeDirsUp names.reverse
      match above.fault? with
      | some (.exists, _) => above.tree.ensureDir (rootedAt 1 (names ++ [n]))
      | some _ => above
      | none => above.tree.ensureDir (rootedAt 1 (names ++ [n])) := by
  have hrev : (names ++ [n]).reverse = n :: names.reverse := by simp
  rw [← rooted_reverse names, ← rooted_reverse (names ++ [n]), hrev]
  rfl

theorem makeDirsUp_of_isDir (h : Rooted 1 names) (hdir : t.isDir (rootedAt 1 names) = true) :
    t.makeDirsUp names.reverse = { tree := t } := by
  rcases List.eq_nil_or_concat' names with rfl | ⟨init, n, rfl⟩
  · have hroot : t.makeDirsUp [].reverse = t.ensureDir (rootedAt 1 []) := rfl
    rw [hroot, ensureDir_of_isDir h hdir]
  · have habove := contains_of_isDir (mem_listing_above h (contains_of_isDir hdir)).1
    simp only [makeDirsUp_concat, habove, if_true]
    exact ensureDir_of_isDir h hdir

theorem above_eq (h : Rooted 1 names) (hmade : t.makeDirsUp names.reverse = { tree := u })
    (hdir : u.isDir (rootedAt 1 names) = true) :
    (if t.contains (rootedAt 1 names) then ({ tree := t } : Attempt) else t.makeDirsUp names.reverse) =
      { tree := u } := by
  split
  · rename_i hthere
    obtain ⟨m, hm⟩ := Option.isSome_iff_exists.mp hthere
    obtain ⟨x, hx, hnode⟩ := at?_eq_some_iff.mp hm
    have hadds : Adds t u := by
      have := adds_makeDirsUp t names.reverse
      rwa [hmade] at this
    obtain ⟨y, hy, hydir⟩ := exists_dirPlace hdir
    obtain rfl : x = y := Except.ok.inj ((locate_of_grows hadds.grows hx).symm.trans hy)
    obtain rfl : m = .dir := Option.some.inj ((hadds.kept hnode).symm.trans hydir)
    rw [← hmade, makeDirsUp_of_isDir h]
    simp [isDir, hm]
  · exact hmade

theorem makeDirsUp_below (h : Rooted 1 names) (hmade : t.makeDirsUp names.reverse = { tree := u })
    (hdir : u.isDir (rootedAt 1 names) = true) (n : Text) :
    t.makeDirsUp (names ++ [n]).reverse = u.ensureDir (rootedAt 1 (names ++ [n])) := by
  simp only [makeDirsUp_concat, above_eq h hmade hdir]

theorem ensureDir_of_free (h : Rooted 1 (names ++ [n])) (hlocate : t.locate (rootedAt 1 names) = .ok x)
    (hdir : t.node? x = some .dir) (hname : n.nameSize ≤ maxNameBytes)
    (hask : Askable (rootedAt 1 (names ++ [n]))) (hfree : t.node? (x ++ [n]) = none) :
    t.ensureDir (rootedAt 1 (names ++ [n])) = { tree := t.set (x ++ [n]) .dir } := by
  have hne := (isName_iff.mp (h.named n (by simp))).1
  have hmade : t.makeDir (rootedAt 1 (names ++ [n])) = .ok (t.set (x ++ [n]) .dir) := by
    rw [makeDir, hask.legal, dirName_rootedAt h, hlocate, baseName_rootedAt h, List.getLast?_concat, Option.getD_some]
    simp [bind, Except.bind, isDirAt_iff.mpr hdir, hne, Nat.not_lt.mpr hname, Nat.not_lt.mpr hask.short, hfree]
  rw [ensureDir, hmade]

end Making

section Fresh

/-- A directory that can be made, or is there already, and then holds nothing. -/
structure Fresh (t : Tree) (dir : Text) (p : Place) : Prop where
  made : (t.makeDirs dir).fault? = none
  leads : (t.makeDirs dir).tree.locate dir = .ok p
  isDir : (t.makeDirs dir).tree.node? p = some .dir
  empty : ∀ r, r ≠ [] → (t.makeDirs dir).tree.node? (p ++ r) = none

theorem contains_of_adds {path : Text} (h : Adds t u) (hthere : t.contains path = true) : u.contains path = true := by
  obtain ⟨m, hm⟩ := Option.isSome_iff_exists.mp hthere
  obtain ⟨x, hx, hnode⟩ := at?_eq_some_iff.mp hm
  rw [contains, at?_eq_some_iff.mpr ⟨x, locate_of_grows h.grows hx, h.kept hnode⟩, Option.isSome_some]

theorem askable_one_slash (h : Rooted k names) (hask : Askable (rootedAt k names)) : Askable (rootedAt 1 names) := by
  rcases h.slashes with rfl | rfl
  · exact hask
  · exact hask.of_sublist (List.sublist_cons_self (ch '/') _)

theorem locate_one_slash (h : Rooted k names) (hlocate : t.locate (rootedAt k names) = .ok p) :
    t.locate (rootedAt 1 names) = .ok p := by
  have hask := askable_of_locate hlocate
  rw [locate_rootedAt h hask] at hlocate
  rw [locate_rootedAt ⟨.inl rfl, h.named⟩ (askable_one_slash h hask), hlocate]

theorem Fresh.isDir_made (h : Fresh t (rootedAt k up) p) (hup : Rooted k up) :
    (t.makeDirs (rootedAt k up)).tree.isDir (rootedAt 1 up) = true := by
  rw [Tree.isDir, beq_iff_eq]
  exact at?_eq_some_iff.mpr ⟨p, locate_one_slash hup h.leads, h.isDir⟩

theorem Fresh.not_contains (h : Fresh t (rootedAt k up) p) (hup : Rooted k up)
    (hds : ∀ d ∈ ds, isName d = true) (hne : ds ≠ []) :
    (t.makeDirs (rootedAt k up)).tree.contains (rootedAt 1 (up ++ ds)) = false ∧
      t.contains (rootedAt 1 (up ++ ds)) = false := by
  have hrooted : Rooted 1 (up ++ ds) := Rooted.below ⟨.inl rfl, hup.named⟩ hds
  have hmade : (t.makeDirs (rootedAt k up)).tree.contains (rootedAt 1 (up ++ ds)) = false := by
    rw [Bool.eq_false_iff]
    intro hthere
    obtain ⟨d, ds, rfl⟩ := List.exists_cons_of_ne_nil hne
    obtain ⟨-, -, hfirst⟩ := mem_listing_on_way hrooted hthere
    have hfirst' : Rooted 1 (up ++ [d]) := Rooted.below ⟨.inl rfl, hup.named⟩ (by simpa using hds d (by simp))
    obtain ⟨x, hx, -, -, hsome⟩ := exists_above hfirst' hfirst
    obtain rfl : p = x := Except.ok.inj ((locate_one_slash hup h.leads).symm.trans hx)
    simp [h.empty [d] (by simp)] at hsome
  refine ⟨hmade, ?_⟩
  rw [Bool.eq_false_iff] at hmade ⊢
  exact fun hthere => hmade (contains_of_adds (adds_makeDirs t _) hthere)

theorem Fresh.makeDirsUp_eq (h : Fresh t (rootedAt k up) p) (hup : Rooted k up)
    (hds : ∀ d ∈ ds, isName d = true) :
    t.makeDirsUp (up ++ ds).reverse = (t.makeDirs (rootedAt k up)).tree.makeDirsUp (up ++ ds).reverse := by
  have hup' : Rooted 1 up := ⟨.inl rfl, hup.named⟩
  have hdir := h.isDir_made hup
  have hthere := makeDirsUp_of_isDir hup' hdir
  have hmade : t.makeDirsUp up.reverse = { tree := (t.makeDirs (rootedAt k up)).tree } := by
    have hfault := h.made
    rw [makeDirs_rootedAt t hup] at hfault ⊢
    rw [← hfault]
  -- below the directory nothing is there at either start, so each further name goes the same way
  induction ds using List.reverseRecOn with
  | nil => rw [List.append_nil, hmade, hthere]
  | append_singleton ds d ih =>
      rw [← List.append_assoc]
      by_cases hne : ds = []
      · subst hne
        rw [List.append_nil, makeDirsUp_below hup' hmade hdir, makeDirsUp_below hup' hthere hdir]
      · have hnames : ∀ x ∈ ds, isName x = true := fun x hx => hds x (List.mem_append_left _ hx)
        obtain ⟨hlater, hbefore⟩ := h.not_contains hup hnames hne
        simp only [makeDirsUp_concat, hlater, hbefore, Bool.false_eq_true, if_false, ih hnames]

end Fresh

end CodeCompaction.FileTree.Tree
