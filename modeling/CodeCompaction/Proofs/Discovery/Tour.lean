import Mathlib
import CodeCompaction.Proofs.Discovery.Names
import CodeCompaction.Proofs.FileTree.Following

namespace CodeCompaction.Discovery

open CodeCompaction.Path CodeCompaction.FileTree CodeCompaction.Text

/-- The files that are met when the directories in a row are walked, each of them with the name by which it is
shown: the files of the first directory, those of the directories in it, and those of the rest of the row. -/
inductive Tour (t : Tree) : List (Text × Text) → List Found → Prop
  | done : Tour t [] []
  | enter {dir relative : Text} {rest : List (Text × Text)} {fs : List Found} :
      Tour t ((dirsOf t dir).map (fun d => (join dir d, below relative d)) ++ rest) fs →
        Tour t ((dir, relative) :: rest) (filesOf t dir relative ++ fs)

def Shallow (t : Tree) : Nat → Text → Prop
  | 0, _ => False
  | n + 1, dir => ∀ d ∈ dirsOf t dir, Shallow t n (join dir d)

def everyFile (t : Tree) (depth : Nat) (dir relative : Text) : List Found :=
  walkWith (fun _ => true) t depth dir relative

variable {t : Tree} {dir path : Text} {depth k : Nat} {up rel : List Text} {f : Found}

theorem everyFile_succ (t : Tree) (depth : Nat) (dir relative : Text) :
    everyFile t (depth + 1) dir relative =
      filesOf t dir relative ++ (dirsOf t dir).flatMap fun d => everyFile t depth (join dir d) (below relative d) := by
  rw [everyFile, walkWith, List.filter_true]
  rfl

section Depth

theorem everyFile_of_shallow (h : Shallow t depth dir) (more : Nat) (relative : Text) :
    everyFile t (depth + more) dir relative = everyFile t depth dir relative := by
  induction depth generalizing dir relative with
  | zero => exact absurd h id
  | succ depth ih =>
      rw [Nat.add_right_comm, everyFile_succ, everyFile_succ]
      congr 1
      exact List.flatMap_congr fun d hd => ih (h d hd) _

theorem tour_everyFile (h : Shallow t depth dir) (relative : Text) {rest : List (Text × Text)}
    {fs : List Found} (hrest : Tour t rest fs) :
    Tour t ((dir, relative) :: rest) (everyFile t depth dir relative ++ fs) := by
  induction depth generalizing dir relative rest fs with
  | zero => exact absurd h id
  | succ depth ih =>
      rw [everyFile_succ, List.append_assoc]
      refine .enter ?_
      have hshallow : ∀ d ∈ dirsOf t dir, Shallow t depth (join dir d) := h
      generalize dirsOf t dir = ds at hshallow ⊢
      induction ds with
      | nil => exact hrest
      | cons d ds ihds =>
          rw [List.map_cons, List.cons_append, List.flatMap_cons, List.append_assoc]
          exact ih (hshallow d (by simp)) _ (ihds fun x hx => hshallow x (by simp [hx]))

theorem Tour.unique {row : List (Text × Text)} {fs gs : List Found} (h : Tour t row fs) (h' : Tour t row gs) :
    fs = gs := by
  induction h generalizing gs with
  | done => cases h'; rfl
  | enter _ ih =>
      cases h' with
      | enter h' => rw [ih h']

end Depth

section Members

theorem join_name {n : Text} (h : Rooted k (up ++ [n])) : join (rootedAt k up) n = rootedAt k (up ++ [n]) := by
  have hn : ∀ x ∈ [n], isName x = true := fun x hx => h.named x (List.mem_append_right _ hx)
  have hjoin := join_slashed h.above (by simp) hn
  rwa [slashed_singleton] at hjoin

theorem mem_filesOf (ht : t.isWellNamed = true) (h : Rooted k up) (hrel : ∀ x ∈ rel, isName x = true) :
    f ∈ filesOf t (rootedAt k up) (slashed rel) ↔ ∃ n, isName n = true ∧
      f.path = rootedAt k (up ++ [n]) ∧ f.relative = slashed (rel ++ [n]) ∧ t.isFile f.path = true := by
  rw [filesOf, List.mem_map]
  constructor
  · rintro ⟨n, hn, rfl⟩
    obtain ⟨hlisted, hfile⟩ := List.mem_filter.mp hn
    have hname := isName_of_mem_sorted ht hlisted
    exact ⟨n, hname, join_name (h.below (by simpa using hname)), below_slashed hrel n, hfile⟩
  · rintro ⟨n, hname, hpath, hrelative, hfile⟩
    have hn : Rooted k (up ++ [n]) := h.below (by simpa using hname)
    rw [hpath] at hfile
    have hlisted := (Tree.mem_listing_above hn (Tree.contains_of_isFile hfile)).2
    refine ⟨n, List.mem_filter.mpr ⟨List.mem_mergeSort.mpr hlisted, ?_⟩, ?_⟩
    · rw [join_name hn, hfile]
    · rw [join_name hn, below_slashed hrel, ← hpath, ← hrelative]

theorem mem_dirsOf (ht : t.isWellNamed = true) (h : Rooted k up) {d : Text} :
    d ∈ dirsOf t (rootedAt k up) ↔ isName d = true ∧ t.isDir (rootedAt k (up ++ [d])) = true := by
  rw [dirsOf, List.mem_filter, sorted, List.mem_mergeSort]
  constructor
  · rintro ⟨hlisted, hdir⟩
    have hname := isName_of_mem_listing ht hlisted
    rw [join_name (h.below (by simpa using hname))] at hdir
    exact ⟨hname, hdir⟩
  · rintro ⟨hname, hdir⟩
    have hd : Rooted k (up ++ [d]) := h.below (by simpa using hname)
    exact ⟨(Tree.mem_listing_above hd (Tree.contains_of_isDir hdir)).2, by rw [join_name hd, hdir]⟩

theorem isDir_of_contains_below {more : List Text} (h : Rooted k up) (hmore : ∀ x ∈ more, isName x = true)
    (hne : more ≠ []) (hthere : t.contains (rootedAt k (up ++ more)) = true) :
    t.isDir (rootedAt k up) = true := by
  obtain ⟨n, more, rfl⟩ := List.exists_cons_of_ne_nil hne
  exact (Tree.mem_listing_on_way (h.below hmore) hthere).1

theorem nameSize_rootedAt_lt {d : Text} (hd : d ≠ []) :
    (rootedAt k up).nameSize < (rootedAt k (up ++ [d])).nameSize := by
  have hpos : 0 < d.nameSize := (List.length_pos_iff.mpr hd).trans_le (Text.length_le_nameSize d)
  rw [rootedAt, rootedAt, Text.nameSize_append, Text.nameSize_append]
  refine Nat.add_lt_add_left ?_ _
  by_cases hup : up = []
  · simpa [hup] using hpos
  · rw [slashed_append hup (by simp), slashed_singleton, Text.nameSize_append, Text.nameSize_cons]
    omega

theorem shallow_of_long (ht : t.isWellNamed = true) (h : Rooted k up) (hdir : t.isDir (rootedAt k up) = true)
    (hlong : maxPathBytes < (rootedAt k up).nameSize + depth) : Shallow t depth (rootedAt k up) := by
  -- each directory on the way down takes some of the path, and too long a path leads nowhere
  induction depth generalizing up with
  | zero =>
      obtain ⟨x, hx, -⟩ := Tree.exists_dirPlace hdir
      exact absurd (Tree.askable_of_locate hx).short (Nat.not_le.mpr hlong)
  | succ depth ih =>
      intro d hd
      obtain ⟨hname, hdir'⟩ := (mem_dirsOf ht h).mp hd
      have hbelow : Rooted k (up ++ [d]) := h.below (by simpa using hname)
      have hmore : (rootedAt k up).nameSize < (rootedAt k (up ++ [d])).nameSize :=
        nameSize_rootedAt_lt (isName_iff.mp hname).1
      rw [join_name hbelow]
      exact ih hbelow hdir' (by omega)

theorem shallow_maxDepth (ht : t.isWellNamed = true) (h : Rooted k up)
    (hdir : t.isDir (rootedAt k up) = true) : Shallow t maxDepth (rootedAt k up) := by
  refine shallow_of_long ht h hdir ?_
  have hpos : 0 < (rootedAt k up).nameSize := by
    rw [rootedAt, Text.nameSize_append]
    rcases h.slashes with rfl | rfl <;> simp [Text.isEscapedByte, Char.utf8Size_pos]
  rw [maxDepth]
  omega

theorem mem_everyFile (ht : t.isWellNamed = true) (h : Rooted k up) (hrel : ∀ x ∈ rel, isName x = true) :
    f ∈ everyFile t depth (rootedAt k up) (slashed rel) ↔
      ∃ ds n, ds.length < depth ∧ (∀ x ∈ ds ++ [n], isName x = true) ∧
        f.path = rootedAt k (up ++ (ds ++ [n])) ∧ f.relative = slashed (rel ++ (ds ++ [n])) ∧
        t.isFile f.path = true := by
  induction depth generalizing up rel with
  | zero => simp [everyFile, walkWith]
  | succ depth ih =>
      rw [everyFile_succ, List.mem_append, mem_filesOf ht h hrel, List.mem_flatMap]
      constructor
      · rintro (⟨n, hname, hpath, hrelative, hfile⟩ | ⟨d, hd, hf⟩)
        · exact ⟨[], n, Nat.succ_pos _, by simpa using hname, hpath, hrelative, hfile⟩
        · have hname : ∀ x ∈ [d], isName x = true := by simpa using ((mem_dirsOf ht h).mp hd).1
          rw [join_name (h.below hname), below_slashed hrel,
            ih (h.below hname) (List.forall_mem_append.mpr ⟨hrel, hname⟩)] at hf
          obtain ⟨ds, n, hlength, hnames, hpath, hrelative, hfile⟩ := hf
          rw [List.append_assoc, List.singleton_append, ← List.cons_append] at hpath hrelative
          exact ⟨d :: ds, n, Nat.succ_lt_succ hlength,
            List.forall_mem_cons.mpr ⟨hname d (by simp), hnames⟩, hpath, hrelative, hfile⟩
      · rintro ⟨ds, n, hlength, hnames, hpath, hrelative, hfile⟩
        cases ds with
        | nil => exact .inl ⟨n, hnames n (by simp), hpath, hrelative, hfile⟩
        | cons d ds =>
            obtain ⟨hname, hrest⟩ := List.forall_mem_cons.mp hnames
            have hsingle : ∀ x ∈ [d], isName x = true := by simpa using hname
            have hthere := Tree.contains_of_isFile hfile
            rw [hpath] at hthere
            rw [List.cons_append, ← List.singleton_append, ← List.append_assoc] at hthere hpath hrelative
            refine .inr ⟨d, (mem_dirsOf ht h).mpr ⟨hname, ?_⟩, ?_⟩
            · exact isDir_of_contains_below (h.below hsingle) hrest (by simp) hthere
            · rw [join_name (h.below hsingle), below_slashed hrel,
                ih (h.below hsingle) (List.forall_mem_append.mpr ⟨hrel, hsingle⟩)]
              exact ⟨ds, n, Nat.lt_of_succ_lt_succ hlength, hrest, hpath, hrelative, hfile⟩

theorem parts_of_mem_filesOf (ht : t.isWellNamed = true) (h : Rooted k up) (hrel : ∀ x ∈ rel, isName x = true)
    (hf : f ∈ filesOf t (rootedAt k up) (slashed rel)) : ∃ n, parts f.relative = rel ++ [n] := by
  obtain ⟨n, hname, -, hrelative, -⟩ := (mem_filesOf ht h hrel).mp hf
  refine ⟨n, ?_⟩
  rw [hrelative, parts_slashed (by simp)]
  exact slash_not_mem_of_named (List.forall_mem_append.mpr ⟨hrel, by simpa using hname⟩)

theorem parts_of_mem_everyFile (ht : t.isWellNamed = true) (h : Rooted k up) (hrel : ∀ x ∈ rel, isName x = true)
    (hf : f ∈ everyFile t depth (rootedAt k up) (slashed rel)) :
    ∃ ds n, parts f.relative = rel ++ (ds ++ [n]) := by
  obtain ⟨ds, n, -, hnames, -, hrelative, -⟩ := (mem_everyFile ht h hrel).mp hf
  refine ⟨ds, n, ?_⟩
  rw [hrelative, parts_slashed (by simp)]
  exact slash_not_mem_of_named (List.forall_mem_append.mpr ⟨hrel, hnames⟩)

theorem everyFile_below (ht : t.isWellNamed = true) (h : Rooted k up) (hrel : ∀ x ∈ rel, isName x = true)
    {d : Text} (hd : d ∈ dirsOf t (rootedAt k up)) (enter : Text → Bool) (depth : Nat) :
    Rooted k (up ++ [d]) ∧ (∀ x ∈ rel ++ [d], isName x = true) ∧
      walkWith enter t depth (join (rootedAt k up) d) (below (slashed rel) d) =
        walkWith enter t depth (rootedAt k (up ++ [d])) (slashed (rel ++ [d])) := by
  have hname : ∀ x ∈ [d], isName x = true := by simpa using ((mem_dirsOf ht h).mp hd).1
  rw [join_name (h.below hname), below_slashed hrel]
  exact ⟨h.below hname, List.forall_mem_append.mpr ⟨hrel, hname⟩, rfl⟩

theorem parts_of_mem_below (ht : t.isWellNamed = true) (h : Rooted k up) (hrel : ∀ x ∈ rel, isName x = true)
    {d : Text} (hd : d ∈ dirsOf t (rootedAt k up))
    (hf : f ∈ everyFile t depth (join (rootedAt k up) d) (below (slashed rel) d)) :
    ∃ ds n, parts f.relative = rel ++ d :: (ds ++ [n]) := by
  obtain ⟨hd', hrel', hsame⟩ := everyFile_below ht h hrel hd (fun _ => true) depth
  rw [everyFile, hsame] at hf
  obtain ⟨ds, n, hparts⟩ := parts_of_mem_everyFile ht hd' hrel' hf
  exact ⟨ds, n, by rw [hparts, List.append_assoc, List.singleton_append]⟩

end Members

section Distinct

theorem children_nodup (hplaces : (t.entries.map Prod.fst).Nodup) (p : Place) : (t.children p).Nodup := by
  have hchildren : t.children p = (t.entries.map Prod.fst).filterMap fun q =>
      if q.length == p.length + 1 && p.isPrefixOf q then q.getLast? else none := by
    rw [List.filterMap_map]
    rfl
  rw [hchildren]
  refine hplaces.filterMap ?_
  -- a place below `p` by one name is `p` and that name
  have hplace : ∀ q n, n ∈ (if q.length == p.length + 1 && p.isPrefixOf q then q.getLast? else none) →
      q = p ++ [n] := by
    intro q n hn
    split at hn
    · rename_i hq
      rw [Bool.and_eq_true, beq_iff_eq, List.isPrefixOf_iff_prefix] at hq
      obtain ⟨hlength, rest, rfl⟩ := hq
      obtain ⟨m, rfl⟩ := List.length_eq_one_iff.mp (Nat.add_left_cancel (List.length_append.symm.trans hlength))
      rw [List.getLast?_concat] at hn
      rw [Option.some.inj hn]
    · simp at hn
  intro q q' n hq hq'
  rw [hplace q n hq, hplace q' n hq']

theorem listing_nodup (hplaces : (t.entries.map Prod.fst).Nodup) (path : Text) : (t.listing path).Nodup := by
  rw [Tree.listing]
  split
  · split
    · exact children_nodup hplaces _
    · exact List.nodup_nil
  · exact List.nodup_nil

theorem sorted_nodup {names : List Text} (h : names.Nodup) : (sorted names).Nodup :=
  (List.mergeSort_perm names textLe).nodup_iff.mpr h

theorem parts_filesOf_nodup (ht : t.isWellNamed = true) (hplaces : (t.entries.map Prod.fst).Nodup)
    (hrel : ∀ x ∈ rel, isName x = true) (dir : Text) :
    ((filesOf t dir (slashed rel)).map fun f => parts f.relative).Nodup := by
  rw [filesOf, List.map_map]
  have hparts : ∀ n ∈ sorted (t.listing dir), parts (below (slashed rel) n) = rel ++ [n] := by
    intro n hn
    have hname := isName_of_mem_sorted ht hn
    rw [below_slashed hrel, parts_slashed (by simp)]
    exact slash_not_mem_of_named (List.forall_mem_append.mpr ⟨hrel, by simpa using hname⟩)
  refine ((sorted_nodup (listing_nodup hplaces _)).filter _).map_on fun n hn m hm heq => ?_
  rw [Function.comp_apply, Function.comp_apply, hparts n (List.mem_filter.mp hn).1,
    hparts m (List.mem_filter.mp hm).1] at heq
  simpa using heq

theorem parts_everyFile_nodup (ht : t.isWellNamed = true) (hplaces : (t.entries.map Prod.fst).Nodup)
    (h : Rooted k up) (hrel : ∀ x ∈ rel, isName x = true) :
    ((everyFile t depth (rootedAt k up) (slashed rel)).map fun f => parts f.relative).Nodup := by
  induction depth generalizing up rel with
  | zero => simp [everyFile, walkWith]
  | succ depth ih =>
      rw [everyFile_succ, List.map_append, List.map_flatMap]
      have hdirs : (dirsOf t (rootedAt k up)).Nodup := (sorted_nodup (listing_nodup hplaces _)).filter _
      refine List.nodup_append.mpr ⟨?_, List.nodup_flatMap.mpr ⟨fun d hd => ?_, ?_⟩, ?_⟩
      · exact parts_filesOf_nodup ht hplaces hrel _
      · obtain ⟨hd', hrel', hsame⟩ := everyFile_below ht h hrel hd (fun _ => true) depth
        rw [everyFile, hsame]
        exact ih hd' hrel'
      · refine hdirs.imp_of_mem fun {d e} hd he hne => ?_
        simp only [Function.onFun, List.disjoint_left, List.mem_map]
        rintro _ ⟨f, hf, rfl⟩ ⟨g, hg, heq⟩
        obtain ⟨ds, n, hparts⟩ := parts_of_mem_below ht h hrel hd hf
        obtain ⟨es, m, hparts'⟩ := parts_of_mem_below ht h hrel he hg
        -- the name behind `rel` tells two subdirectories apart
        rw [hparts, hparts'] at heq
        exact hne (List.cons.inj (List.append_cancel_left heq)).1.symm
      · rintro _ hfile _ hbelow
        obtain ⟨f, hf, rfl⟩ := List.mem_map.mp hfile
        obtain ⟨d, hd, hbelow⟩ := List.mem_flatMap.mp hbelow
        obtain ⟨g, hg, rfl⟩ := List.mem_map.mp hbelow
        obtain ⟨n, hparts⟩ := parts_of_mem_filesOf ht h hrel hf
        obtain ⟨ds, m, hparts'⟩ := parts_of_mem_below ht h hrel hd hg
        intro heq
        -- a file in the directory itself has fewer names than one further down
        have hlength := congrArg List.length heq
        rw [hparts, hparts'] at hlength
        simp at hlength

end Distinct

section Pruning

theorem flatMap_filter {α β : Type} (p : α → Bool) (g : α → List β) (l : List α) :
    (l.filter p).flatMap g = l.flatMap fun a => if p a then g a else [] := by
  induction l with
  | nil => rfl
  | cons a l ih =>
      rw [List.filter_cons, List.flatMap_cons]
      split
      · rw [List.flatMap_cons, ih]
      · rw [ih, List.nil_append]

theorem walkWith_eq_filter (ht : t.isWellNamed = true) (h : Rooted k up) (hrel : ∀ x ∈ rel, isName x = true)
    (enter : Text → Bool) : walkWith enter t depth (rootedAt k up) (slashed rel) =
      (everyFile t depth (rootedAt k up) (slashed rel)).filter fun f =>
        ((parts f.relative).drop rel.length).dropLast.all enter := by
  induction depth generalizing up rel with
  | zero => rfl
  | succ depth ih =>
      rw [walkWith, everyFile_succ, List.filter_append, List.filter_flatMap, flatMap_filter]
      congr 1
      · refine (List.filter_eq_self.mpr fun f hf => ?_).symm
        obtain ⟨n, hparts⟩ := parts_of_mem_filesOf ht h hrel hf
        simp [hparts]
      · refine List.flatMap_congr fun d hd => ?_
        obtain ⟨hd', hrel', hsame⟩ := everyFile_below ht h hrel hd enter depth
        have hway : ∀ f ∈ everyFile t depth (join (rootedAt k up) d) (below (slashed rel) d),
            ((parts f.relative).drop rel.length).dropLast.all enter =
              (enter d && ((parts f.relative).drop (rel ++ [d]).length).dropLast.all enter) := by
          intro f hf
          obtain ⟨ds, n, hparts⟩ := parts_of_mem_below ht h hrel hd hf
          have hparts' : parts f.relative = (rel ++ [d]) ++ (ds ++ [n]) := by simp [hparts]
          rw [hparts, List.drop_left, ← hparts, hparts', List.drop_left, ← List.cons_append,
            List.dropLast_concat, List.dropLast_concat, List.all_cons]
        rw [List.filter_congr hway, hsame, ih hd' hrel']
        have hsame' := (everyFile_below ht h hrel hd (fun _ => true) depth).2.2
        cases enter d with
        | true => simp [everyFile, hsame']
        | false => simp

def passesDot (relative : Text) : Bool := (parts relative).dropLast.any startsWithDot

theorem walk_eq_filter (ht : t.isWellNamed = true) (h : Rooted k up) :
    walk t (rootedAt k up) = (everyFile t maxDepth (rootedAt k up) []).filter fun f =>
      !isHidden f.relative && !passesDot f.relative := by
  have hwalk : walkWith (fun d => !startsWithDot d) t maxDepth (rootedAt k up) (slashed []) = _ :=
    walkWith_eq_filter ht h (List.forall_mem_nil _) _
  rw [slashed_nil] at hwalk
  rw [walk, hwalk, List.filter_filter]
  refine List.filter_congr fun f _ => ?_
  rw [passesDot, List.length_nil, List.drop_zero, List.not_any_eq_all_not]

end Pruning

section Slips

/-- A dot or two and then a backslash: the name starts with a dot, and no part of it is hidden for that. -/
def slips (n : Text) : Bool := [ch '.', '\\'].isPrefixOf n || [ch '.', '.', '\\'].isPrefixOf n

theorem isHidden_slashed {names : List Text} (hne : names ≠ []) :
    isHidden (slashed names) = names.any isHidden := by
  induction names with
  | nil => exact absurd rfl hne
  | cons n names ih =>
      cases names with
      | nil => simp
      | cons m names =>
          rw [slashed_cons n (by simp), isHidden, pieces_append_separator (by decide), List.any_append,
            ← isHidden, ← isHidden, ih (by simp)]
          rfl

theorem eq_first_piece {sep : CodePoint → Bool} {n p : Text} {ps : List Text} (h : pieces sep n = p :: ps) :
    n = p ∨ ∃ c rest, sep c = true ∧ n = p ++ c :: rest := by
  induction n generalizing p with
  | nil => exact .inl (List.cons.inj h).1
  | cons c n ih =>
      rw [pieces] at h
      split at h
      · rename_i hc
        rw [← (List.cons.inj h).1]
        exact .inr ⟨c, n, hc, rfl⟩
      · obtain ⟨q, qs, hq⟩ := List.exists_cons_of_ne_nil (pieces_ne_nil sep n)
        simp only [hq] at h
        obtain ⟨rfl, rfl⟩ := List.cons.inj h
        rcases ih hq with rfl | ⟨d, rest, hd, rfl⟩
        · exact .inl rfl
        · exact .inr ⟨d, rest, hd, rfl⟩

theorem slips_of_startsWithDot {n : Text} (hname : isName n = true) (hvisible : isHidden n = false)
    (hdot : startsWithDot n = true) : slips n = true := by
  obtain ⟨-, hslash, hone, htwo⟩ := isName_iff.mp hname
  rw [startsWithDot, beq_iff_eq] at hdot
  obtain ⟨p, ps, hp⟩ := List.exists_cons_of_ne_nil (pieces_ne_nil isAnySlash n)
  rw [isHidden, hp, List.any_cons, Bool.or_eq_false_iff, isHiddenPart] at hvisible
  have hfirst := hvisible.1
  rcases eq_first_piece hp with rfl | ⟨c, rest, hc, rfl⟩
  · simp [hdot, isDots, hone, htwo] at hfirst
  · have hback : c = '\\' := by
      have hne : c ≠ '/' := fun heq => hslash (by simp [heq])
      simpa [isAnySlash, hne] using hc
    have hhead : p.head? = some (ch '.') := by
      cases p with
      | nil => simp [hback] at hdot
      | cons d p => exact hdot
    have hdots : p = [ch '.'] ∨ p = [ch '.', '.'] := by
      simpa [hhead, isDots, or_iff_not_imp_left] using hfirst
    rcases hdots with rfl | rfl <;> simp [slips, hback, List.isPrefixOf]

theorem startsWithDot_of_slips {n : Text} (h : slips n = true) : startsWithDot n = true := by
  rw [slips, Bool.or_eq_true, List.isPrefixOf_iff_prefix, List.isPrefixOf_iff_prefix] at h
  rcases h with ⟨rest, rfl⟩ | ⟨rest, rfl⟩ <;> rfl

theorem passesDot_iff {names : List Text} (hne : names ≠ []) (hnames : ∀ x ∈ names, isName x = true)
    (hvisible : isHidden (slashed names) = false) :
    passesDot (slashed names) = names.dropLast.any slips := by
  rw [isHidden_slashed hne, List.any_eq_false] at hvisible
  rw [passesDot, parts_slashed hne (slash_not_mem_of_named hnames), Bool.eq_iff_iff, List.any_eq_true,
    List.any_eq_true]
  refine exists_congr fun d => and_congr_right fun hd => ⟨fun hdot => ?_, startsWithDot_of_slips⟩
  have hmem := List.mem_of_mem_dropLast hd
  exact slips_of_startsWithDot (hnames d hmem) (by simpa using hvisible d hmem) hdot

end Slips

end CodeCompaction.Discovery
