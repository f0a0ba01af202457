import Mathlib
import CodeCompaction.Proofs.FileTree.Growth
import CodeCompaction.Proofs.Path.Normal

namespace CodeCompaction.FileTree.Tree

open CodeCompaction.Path

variable {path : Text} {t : Tree} {links k : Nat} {here p x : Place} {ps qs names more : List Text} {n : Text} {m : Node}

section Follow

theorem exists_follow_append (h : t.follow links here ps = .ok x) :
    ∃ left ≤ links, ∀ qs, t.follow links here (ps ++ qs) = t.follow left x qs := by
  fun_induction follow t links here ps with
  | case1 links here => exact ⟨links, le_rfl, fun qs => Except.ok.inj h ▸ rfl⟩
  | case2 => exact absurd h (by simp)
  | case3 links here part rest hdir hskip ih =>
      obtain ⟨left, hleft, hrest⟩ := ih h
      refine ⟨left, hleft, fun qs => ?_⟩
      rw [List.cons_append, follow, if_neg hdir, if_pos hskip, hrest]
  | case4 links here part rest hdir hskip hup ih =>
      obtain ⟨left, hleft, hrest⟩ := ih h
      refine ⟨left, hleft, fun qs => ?_⟩
      rw [List.cons_append, follow, if_neg hdir, if_neg hskip, if_pos hup, hrest]
  | case5 => exact absurd h (by simp)
  | case6 => exact absurd h (by simp)
  | case7 here part rest hdir hskip hup hshort target hlink links ih =>
      obtain ⟨left, hleft, hrest⟩ := ih h
      refine ⟨left, Nat.le_succ_of_le hleft, fun qs => ?_⟩
      rw [List.cons_append, follow, if_neg hdir, if_neg hskip, if_neg hup, if_neg hshort, hlink]
      simp only
      -- the parts of the target go in front of those that are left
      rw [← hrest, List.append_assoc]
      rfl
  | case8 links here part rest hdir hskip hup hshort hplain ih =>
      obtain ⟨left, hleft, hrest⟩ := ih h
      refine ⟨left, hleft, fun qs => ?_⟩
      rw [List.cons_append, follow, if_neg hdir, if_neg hskip, if_neg hup, if_neg hshort]
      split
      · rename_i target hlink
        exact absurd hlink (hplain target)
      · exact hrest qs

theorem exists_follow_of_append (h : t.follow links here (ps ++ qs) = .ok p) :
    ∃ x, t.follow links here ps = .ok x := by
  fun_induction follow t links here ps with
  | case1 links here => exact ⟨here, rfl⟩
  | case2 links here part rest hdir =>
      rw [List.cons_append, follow, if_pos hdir] at h
      exact absurd h (by simp)
  | case3 links here part rest hdir hskip ih =>
      rw [List.cons_append, follow, if_neg hdir, if_pos hskip] at h
      exact ih h
  | case4 links here part rest hdir hskip hup ih =>
      rw [List.cons_append, follow, if_neg hdir, if_neg hskip, if_pos hup] at h
      exact ih h
  | case5 links here part rest hdir hskip hup hlong =>
      rw [List.cons_append, follow, if_neg hdir, if_neg hskip, if_neg hup, if_pos hlong] at h
      exact absurd h (by simp)
  | case6 here part rest hdir hskip hup hshort target hlink =>
      rw [List.cons_append, follow, if_neg hdir, if_neg hskip, if_neg hup, if_neg hshort, hlink] at h
      exact absurd h (by simp)
  | case7 here part rest hdir hskip hup hshort target hlink links ih =>
      rw [List.cons_append, follow, if_neg hdir, if_neg hskip, if_neg hup, if_neg hshort, hlink] at h
      simp only at h
      rw [← List.append_assoc] at h
      exact ih h
  | case8 links here part rest hdir hskip hup hshort hplain ih =>
      rw [List.cons_append, follow, if_neg hdir, if_neg hskip, if_neg hup, if_neg hshort] at h
      split at h
      · rename_i target hlink
        exact absurd hlink (hplain target)
      · exact ih h

theorem follow_empties (t : Tree) (links k : Nat) (ps : List Text) :
    t.follow links [] (List.replicate k [] ++ ps) = t.follow links [] ps := by
  induction k with
  | zero => rfl
  | succ k ih =>
      rw [List.replicate_succ, List.cons_append, follow, if_neg (by simp [isDirAt, node?]), if_pos (by simp), ih]

theorem follow_cons_of_plain (hn : isName n = true) (hdir : t.node? here = some .dir)
    (hshort : n.nameSize ≤ maxNameBytes) (hplain : ∀ target, t.node? (here ++ [n]) ≠ some (.link target))
    (links : Nat) (rest : List Text) :
    t.follow links here (n :: rest) = t.follow links (here ++ [n]) rest := by
  obtain ⟨hne, -, hdot, hdots⟩ := isName_iff.mp hn
  rw [follow, if_neg (by simp [isDirAt_iff.mpr hdir]), if_neg (by simp [hne, hdot]), if_neg (by simp [hdots]),
    if_neg (Nat.not_lt.mpr hshort)]
  split
  · rename_i target hlink
    exact absurd hlink (hplain target)
  · rfl

theorem isSome_of_follow_name (hn : isName n = true) (h : t.follow links here [n] = .ok p)
    (hthere : (t.node? p).isSome = true) :
    t.node? here = some .dir ∧ n.nameSize ≤ maxNameBytes ∧ (t.node? (here ++ [n])).isSome = true := by
  obtain ⟨hne, -, hdot, hdots⟩ := isName_iff.mp hn
  rw [follow] at h
  split at h
  · exact absurd h (by simp)
  · rename_i hdir
    rw [if_neg (by simp [hne, hdot]), if_neg (by simp [hdots])] at h
    split at h
    · exact absurd h (by simp)
    · rename_i hshort
      refine ⟨isDirAt_iff.mp (by simpa using hdir), Nat.not_lt.mp hshort, ?_⟩
      split at h
      · rename_i hlink
        simp [hlink]
      · rw [follow] at h
        exact Except.ok.inj h ▸ hthere

end Follow

section Rooted

theorem mem_children_of_isSome (h : (t.node? (p ++ [n])).isSome = true) : n ∈ t.children p := by
  obtain ⟨m, hm⟩ := Option.isSome_iff_exists.mp h
  rw [node?, if_neg (by simp)] at hm
  obtain ⟨before, after, hentries, -⟩ := List.lookup_eq_some_iff.mp hm
  refine List.mem_filterMap.mpr ⟨(p ++ [n], m), by simp [hentries], by simp⟩

theorem nameSize_rootedAt_cons (n : Text) (ns : List Text) :
    (rootedAt 1 (n :: ns)).nameSize = ((n :: ns).map (Text.nameSize · + 1)).sum := by
  have hslash : Text.nameSize [ch '/'] = 1 := rfl
  rw [rootedAt, slashed, Text.nameSize_append, Text.nameSize_intercalate_slash, List.map_cons, List.sum_cons]
  change 1 + _ = _
  omega

theorem askable_rootedAt {xs ys : List Text} (h : Askable (rootedAt k (xs ++ ys))) : Askable (rootedAt k xs) :=
  h.of_sublist ((slashed_isPrefix xs ys).sublist.append_left _)

theorem locate_rootedAt (h : Rooted k names) (hask : Askable (rootedAt k names)) :
    t.locate (rootedAt k names) = t.follow maxLinks [] names := by
  obtain ⟨j, hj⟩ : ∃ j, k = j + 1 := by
    rcases h.slashes with rfl | rfl <;> exact ⟨_, rfl⟩
  rw [locate, hask.legal]
  simp only
  rw [if_neg (by simp [rootedAt, hj, List.replicate_succ]), if_neg (Nat.not_lt.mpr hask.short), rootedAt,
    parts_replicate, follow_empties]
  by_cases hnames : names = []
  · subst hnames
    exact follow_empties t maxLinks 1 []
  · rw [parts_slashed hnames (slash_not_mem_of_named h.named)]

theorem askable_of_locate (h : t.locate path = .ok p) : Askable path := (locate_eq_ok_iff.mp h).1

theorem at?_eq_some_iff : t.at? path = some m ↔ ∃ p, t.locate path = .ok p ∧ t.node? p = some m := by
  rw [at?]
  cases t.locate path <;> simp

theorem isFile_iff : t.isFile path = true ↔ ∃ bytes, t.at? path = some (.file bytes) := by
  rw [isFile]
  split
  · rename_i bytes hat
    simp [hat]
  · rename_i hat
    simpa using hat

theorem contains_of_isFile (h : t.isFile path = true) : t.contains path = true := by
  obtain ⟨bytes, hat⟩ := isFile_iff.mp h
  rw [contains, hat, Option.isSome_some]

theorem contains_of_isDir (h : t.isDir path = true) : t.contains path = true := by
  rw [isDir, beq_iff_eq] at h
  rw [contains, h, Option.isSome_some]

theorem exists_dirPlace (h : t.isDir path = true) : ∃ x, t.locate path = .ok x ∧ t.node? x = some .dir := by
  rw [isDir, beq_iff_eq] at h
  exact at?_eq_some_iff.mp h

theorem exists_above (h : Rooted k (names ++ [n])) (hthere : t.contains (rootedAt k (names ++ [n])) = true) :
    ∃ x, t.locate (rootedAt k names) = .ok x ∧ t.node? x = some .dir ∧ n.nameSize ≤ maxNameBytes ∧
      (t.node? (x ++ [n])).isSome = true := by
  obtain ⟨m, hm⟩ := Option.isSome_iff_exists.mp hthere
  obtain ⟨p, hlocate, hnode⟩ := at?_eq_some_iff.mp hm
  have hask := askable_of_locate hlocate
  have habove : t.locate (rootedAt k names) = t.follow maxLinks [] names :=
    locate_rootedAt h.above (askable_rootedAt hask)
  rw [locate_rootedAt h hask] at hlocate
  obtain ⟨x, hx⟩ := exists_follow_of_append hlocate
  obtain ⟨left, -, hrest⟩ := exists_follow_append hx
  rw [hrest] at hlocate
  exact ⟨x, habove.trans hx, isSome_of_follow_name (h.named n (by simp)) hlocate (by simp [hnode])⟩

theorem mem_listing_above (h : Rooted k (names ++ [n])) (hthere : t.contains (rootedAt k (names ++ [n])) = true) :
    t.isDir (rootedAt k names) = true ∧ n ∈ t.listing (rootedAt k names) := by
  obtain ⟨x, hx, hdir, -, hname⟩ := exists_above h hthere
  refine ⟨by simp [isDir, at?_eq_some_iff.mpr ⟨x, hx, hdir⟩], ?_⟩
  rw [listing, hx]
  simp only [isDirAt_iff.mpr hdir, if_true]
  exact mem_children_of_isSome hname

theorem mem_listing_on_way (h : Rooted k (names ++ n :: more))
    (hthere : t.contains (rootedAt k (names ++ n :: more)) = true) :
    t.isDir (rootedAt k names) = true ∧ n ∈ t.listing (rootedAt k names) ∧
      t.contains (rootedAt k (names ++ [n])) = true := by
  induction more using List.reverseRecOn with
  | nil => exact ⟨(mem_listing_above h hthere).1, (mem_listing_above h hthere).2, hthere⟩
  | append_singleton more m ih =>
      rw [← List.cons_append, ← List.append_assoc] at h hthere
      refine ih h.above ?_
      have hdir := (mem_listing_above h hthere).1
      rw [isDir, beq_iff_eq] at hdir
      rw [contains, hdir, Option.isSome_some]

end Rooted

end CodeCompaction.FileTree.Tree
