import Mathlib.Data.List.Infix
import Mathlib.Logic.Function.Basic
import CodeCompaction.Proofs.FileTree.Making

namespace CodeCompaction.FileTree.Tree

open CodeCompaction.Path

variable {t u base : Tree} {k : Nat} {p : Place} {up r ds : List Text} {n : Text}
variable {content : List Text → Option Node}

section Laid

/-- A tree that is like another one but for what it holds strictly below a place; directories and links of the
other one are kept there too. -/
structure Laid (base : Tree) (p : Place) (t : Tree) (content : List Text → Option Node) : Prop where
  grows : Grows base t
  below : ∀ r, r ≠ [] → t.node? (p ++ r) = content r
  outside : ∀ q, ¬ (p <+: q ∧ q ≠ p) → t.node? q = base.node? q

theorem Laid.congr {content' : List Text → Option Node} (h : Laid base p t content)
    (hcontent : ∀ r, r ≠ [] → content r = content' r) : Laid base p t content' :=
  ⟨h.grows, fun r hr => (h.below r hr).trans (hcontent r hr), h.outside⟩

theorem Laid.set (h : Laid base p t content) (hr : r ≠ [])
    (hfree : ∀ m, content r = some m → ∃ b, m = .file b) {m : Node} (hm : m.isLink = false) :
    Laid base p (t.set (p ++ r) m) (Function.update content r (some m)) := by
  refine ⟨h.grows.trans (Grows.set (by simp [hr]) (fun n hn => hfree n ?_) hm), fun s hs => ?_, fun q hq => ?_⟩
  · rw [← h.below r hr, hn]
  · by_cases hsr : s = r
    · subst hsr
      rw [node?_set_self (by simp [hs]), Function.update_self]
    · rw [node?_set_of_ne (by simpa using hsr), Function.update_of_ne hsr, h.below s hs]
  · rw [node?_set_of_ne ?_, h.outside q hq]
    rintro rfl
    exact hq ⟨List.prefix_append p r, by simpa using hr⟩

theorem follow_row (links : Nat) (hnames : ∀ n ∈ r, isName n = true ∧ n.nameSize ≤ maxNameBytes)
    (hway : ∀ s, s <+: r → s ≠ r → t.node? (p ++ s) = some .dir)
    (hlast : ∀ target, t.node? (p ++ r) ≠ some (.link target)) : t.follow links p r = .ok (p ++ r) := by
  induction r generalizing p with
  | nil => rw [follow, List.append_nil]
  | cons n r ih =>
      obtain ⟨hname, hshort⟩ := hnames n (by simp)
      have hdir : t.node? p = some .dir := by simpa using hway [] (by simp) (by simp)
      have hplain : ∀ target, t.node? (p ++ [n]) ≠ some (.link target) := by
        by_cases hr : r = []
        · simpa [hr] using hlast
        · intro target hlink
          rw [hway [n] (by simp) (by simpa using Ne.symm hr)] at hlink
          exact Node.noConfusion (Option.some.inj hlink)
      rw [follow_cons_of_plain hname hdir hshort hplain, ih (fun x hx => hnames x (by simp [hx]))]
      · rw [List.append_assoc, List.singleton_append]
      · intro s hs hne
        rw [List.append_assoc, List.singleton_append]
        exact hway (n :: s) (by simpa using hs) (by simpa using hne)
      · simpa using hlast

structure Fits (k : Nat) (up r : List Text) : Prop where
  names : ∀ n ∈ r, isName n = true ∧ n.nameSize ≤ maxNameBytes
  path : Askable (rootedAt k (up ++ r))

theorem Fits.above {s : List Text} (h : Fits k up (r ++ s)) : Fits k up r :=
  ⟨fun n hn => h.names n (List.mem_append_left _ hn), askable_rootedAt (List.append_assoc .. ▸ h.path)⟩

theorem Fits.one_slash (h : Fits k up r) (hup : Rooted k up) : Fits 1 up r :=
  ⟨h.names, askable_one_slash (hup.below fun n hn => (h.names n hn).1) h.path⟩

theorem Fits.rooted (h : Fits k up r) (hup : Rooted k up) : Rooted k (up ++ r) :=
  hup.below fun n hn => (h.names n hn).1

structure Site (base : Tree) (up : List Text) (p : Place) : Prop where
  leads : base.follow maxLinks [] up = .ok p
  isDir : base.node? p = some .dir

theorem Laid.locate (h : Laid base p t content) (hsite : Site base up p) (hup : Rooted k up) (hfits : Fits k up r)
    (hway : ∀ s, s ≠ [] → s <+: r → s ≠ r → content s = some .dir)
    (hlast : r ≠ [] → ∀ target, content r ≠ some (.link target)) :
    t.locate (rootedAt k (up ++ r)) = .ok (p ++ r) := by
  obtain ⟨left, -, hrest⟩ := exists_follow_append (follow_of_grows h.grows hsite.leads)
  rw [locate_rootedAt (hfits.rooted hup) hfits.path, hrest]
  have hdir : t.node? p = some .dir := by rw [h.outside p (by simp), hsite.isDir]
  refine follow_row left hfits.names (fun s hs hne => ?_) (fun target hlink => ?_)
  · by_cases hempty : s = []
    · rw [hempty, List.append_nil, hdir]
    · rw [h.below s hempty, hway s hempty hs hne]
  · by_cases hempty : r = []
    · rw [hempty, List.append_nil, hdir] at hlink
      exact Node.noConfusion (Option.some.inj hlink)
    · exact hlast hempty target ((h.below r hempty).symm.trans hlink)

def withDirs (content : List Text → Option Node) (ds r : List Text) : Option Node :=
  if r <+: ds then some .dir else content r

theorem update_withDirs (content : List Text → Option Node) (ds : List Text) (d : Text) :
    Function.update (withDirs content ds) (ds ++ [d]) (some .dir) = withDirs content (ds ++ [d]) := by
  funext r
  by_cases hr : r = ds ++ [d]
  · rw [hr, Function.update_self, withDirs, if_pos (List.prefix_refl _)]
  · rw [Function.update_of_ne hr, withDirs, withDirs]
    refine if_congr ?_ rfl rfl
    rw [List.prefix_concat_iff]
    exact ⟨.inr, fun h => h.resolve_left hr⟩

theorem Laid.locate_dirs (h : Laid base p t (withDirs content ds)) (hsite : Site base up p) (hup : Rooted k up)
    (hfits : Fits k up ds) :
    t.locate (rootedAt k (up ++ ds)) = .ok (p ++ ds) ∧ t.node? (p ++ ds) = some .dir := by
  refine ⟨h.locate hsite hup hfits (fun s _ hs _ => if_pos hs) (fun _ target hlink => ?_), ?_⟩
  · rw [withDirs, if_pos (List.prefix_refl ds)] at hlink
    exact Node.noConfusion (Option.some.inj hlink)
  · by_cases hds : ds = []
    · rw [hds, List.append_nil, h.outside p (by simp), hsite.isDir]
    · rw [h.below ds hds, withDirs, if_pos (List.prefix_refl ds)]

theorem Laid.isDir_dirs (h : Laid base p t (withDirs content ds)) (hsite : Site base up p) (hup : Rooted k up)
    (hfits : Fits k up ds) : t.isDir (rootedAt k (up ++ ds)) = true := by
  rw [Tree.isDir, beq_iff_eq]
  exact at?_eq_some_iff.mpr ⟨_, h.locate_dirs hsite hup hfits⟩

theorem withDirs_concat_self (content : List Text → Option Node) (ds : List Text) (d : Text) :
    withDirs content ds (ds ++ [d]) = content (ds ++ [d]) :=
  if_neg fun hpre => absurd hpre.length_le (by simp)

theorem withDirs_concat_of_dir {d : Text} (hdir : content (ds ++ [d]) = some .dir) :
    withDirs content (ds ++ [d]) = withDirs content ds := by
  rw [← update_withDirs, ← hdir, ← withDirs_concat_self content ds d, Function.update_eq_self]

theorem Laid.makeDirs (h : Laid base p t content) (hsite : Site base up p) (hup : Rooted 1 up)
    (hfits : Fits 1 up ds) (hfree : ∀ s, s ≠ [] → s <+: ds → content s = none ∨ content s = some .dir) :
    ∃ u, t.makeDirsUp (up ++ ds).reverse = { tree := u } ∧ Laid base p u (withDirs content ds) := by
  induction ds using List.reverseRecOn with
  | nil =>
      have hlaid : Laid base p t (withDirs content []) :=
        h.congr fun r hr => (if_neg fun hpre => hr (List.prefix_nil.mp hpre)).symm
      exact ⟨t, makeDirsUp_of_isDir (hfits.rooted hup) (hlaid.isDir_dirs hsite hup hfits), hlaid⟩
  | append_singleton ds d ih =>
      obtain ⟨u, hmade, hlaid⟩ :=
        ih hfits.above fun s hs hpre => hfree s hs (hpre.trans (List.prefix_append ds [d]))
      have hrooted := hfits.rooted hup
      -- the directories so far lead to the place of the next one
      obtain ⟨hlocate, hdir⟩ := hlaid.locate_dirs hsite hup hfits.above
      have hbelow := makeDirsUp_below (hfits.above.rooted hup) hmade (hlaid.isDir_dirs hsite hup hfits.above) d
      rw [List.append_assoc] at hbelow
      rw [hbelow]
      rcases hfree (ds ++ [d]) (by simp) (List.prefix_refl _) with hnone | hthere
      · have hnode : u.node? (p ++ ds ++ [d]) = none := by
          rw [List.append_assoc, hlaid.below _ (by simp), withDirs_concat_self, hnone]
        have hpath := hfits.path
        rw [← List.append_assoc] at hpath hrooted ⊢
        refine ⟨_, ensureDir_of_free hrooted hlocate hdir (hfits.names d (by simp)).2 hpath hnode, ?_⟩
        rw [← update_withDirs, List.append_assoc]
        exact hlaid.set (by simp) (fun m hm => by rw [withDirs_concat_self, hnone] at hm; simp at hm) rfl
      · rw [withDirs_concat_of_dir hthere]
        refine ⟨u, ensureDir_of_isDir hrooted ?_, hlaid⟩
        exact (withDirs_concat_of_dir hthere ▸ hlaid).isDir_dirs hsite hup hfits

def withFile (content : List Text → Option Node) (names : List Text) (bytes : ByteArray) :
    List Text → Option Node :=
  Function.update (withDirs content names.dropLast) names (some (.file bytes))

theorem Laid.write (h : Laid base p t (withDirs content ds)) (hsite : Site base up p) (hup : Rooted k up)
    (hfits : Fits k up (ds ++ [n])) (hfree : ∀ m, content (ds ++ [n]) = some m → ∃ b, m = .file b)
    (bytes : ByteArray) :
    ∃ u, t.write (rootedAt k (up ++ (ds ++ [n]))) bytes = .ok u ∧
      Laid base p u (withFile content (ds ++ [n]) bytes) := by
  have hfile : ∀ m, withDirs content ds (ds ++ [n]) = some m → ∃ b, m = .file b := by
    rwa [withDirs_concat_self]
  have hlocate : t.locate (rootedAt k (up ++ (ds ++ [n]))) = .ok (p ++ (ds ++ [n])) := by
    refine h.locate hsite hup hfits (fun s _ hs hne => if_pos ?_) (fun _ target hlink => ?_)
    · exact (List.prefix_concat_iff.mp hs).resolve_left hne
    · obtain ⟨b, hb⟩ := hfile _ hlink
      exact Node.noConfusion hb
  have hdir := (h.locate_dirs hsite hup hfits.above).2
  have hwritable : t.writable (rootedAt k (up ++ (ds ++ [n]))) = .ok (p ++ (ds ++ [n])) := by
    rw [writable, hlocate]
    simp only [bind, Except.bind]
    rw [h.below _ (by simp)]
    split
    · rename_i hd
      obtain ⟨b, hb⟩ := hfile _ hd
      exact Node.noConfusion hb
    · rfl
    · rw [← List.append_assoc, List.dropLast_concat, if_pos (isDirAt_iff.mpr hdir)]
  refine ⟨t.set (p ++ (ds ++ [n])) (.file bytes), ?_, ?_⟩
  · rw [Tree.write, hwritable]
    rfl
  · rw [withFile, List.dropLast_concat]
    exact h.set (by simp) hfile rfl

end Laid

section Contents

variable {files : List (List Text × ByteArray)} {names : List Text} {bytes : ByteArray}

structure HoldsOnly (files : List (List Text × ByteArray)) (content : List Text → Option Node) : Prop where
  file : ∀ r bytes, content r = some (.file bytes) ↔ (r, bytes) ∈ files
  dir : ∀ r, r ≠ [] → (content r = some .dir ↔ ∃ f ∈ files, r <+: f.1 ∧ r ≠ f.1)
  link : ∀ r target, content r ≠ some (.link target)

theorem HoldsOnly.nothing : HoldsOnly [] fun _ => none :=
  ⟨fun _ _ => by simp, fun _ _ => by simp, fun _ _ => by simp⟩

def Apart (files : List (List Text × ByteArray)) : Prop := ∀ f ∈ files, ∀ g ∈ files, f.1 <+: g.1 → f = g

theorem withFile_self : withFile content names bytes names = some (.file bytes) := Function.update_self ..

theorem withFile_above (hr : r <+: names) (hne : r ≠ names) : withFile content names bytes r = some .dir := by
  rw [withFile, Function.update_of_ne hne]
  rcases List.eq_nil_or_concat' names with rfl | ⟨ds, n, rfl⟩
  · exact absurd (List.prefix_nil.mp hr) hne
  · rw [List.dropLast_concat]
    exact if_pos ((List.prefix_concat_iff.mp hr).resolve_left hne)

theorem withFile_of_not_above (hr : ¬ r <+: names) : withFile content names bytes r = content r := by
  have hne : r ≠ names := fun heq => hr (by rw [heq])
  rw [withFile, Function.update_of_ne hne]
  exact if_neg fun hpre => hr (hpre.trans (List.dropLast_prefix names))

theorem HoldsOnly.add (h : HoldsOnly files content) (hapart : Apart (files ++ [(names, bytes)])) :
    HoldsOnly (files ++ [(names, bytes)]) (withFile content names bytes) := by
  have hnew : (names, bytes) ∈ files ++ [(names, bytes)] := by simp
  have hold : ∀ f ∈ files, f ∈ files ++ [(names, bytes)] := fun f hf => List.mem_append_left _ hf
  -- each name is the new one, or on the way to it, or of no concern to it
  refine ⟨fun r b => ?_, fun r hr => ?_, fun r target => ?_⟩ <;> by_cases habove : r <+: names
  · by_cases hself : r = names
    · subst hself
      rw [withFile_self, List.mem_append]
      constructor
      · intro heq
        simp [Node.file.inj (Option.some.inj heq)]
      · rintro (hmem | hmem)
        · rw [(Prod.mk.inj (hapart _ (hold _ hmem) _ hnew habove)).2]
        · rw [(Prod.mk.inj (List.mem_singleton.mp hmem)).2]
    · rw [withFile_above habove hself]
      refine iff_of_false (by simp) fun hmem => hself ?_
      exact (Prod.mk.inj (hapart _ hmem _ hnew habove)).1
  · rw [withFile_of_not_above habove, h.file, List.mem_append, or_iff_left]
    rintro hmem
    exact habove ((Prod.mk.inj (List.mem_singleton.mp hmem)).1 ▸ List.prefix_refl r)
  · by_cases hself : r = names
    · subst hself
      rw [withFile_self]
      refine iff_of_false (by simp) ?_
      rintro ⟨f, hf, hpre, hne⟩
      exact hne (congrArg Prod.fst (hapart _ hnew f hf hpre))
    · rw [withFile_above habove hself]
      exact iff_of_true rfl ⟨_, hnew, habove, hself⟩
  · rw [withFile_of_not_above habove, h.dir r hr]
    refine exists_congr fun f => ?_
    rw [List.mem_append, List.mem_singleton, or_and_right, or_iff_left]
    rintro ⟨rfl, hpre, -⟩
    exact habove hpre
  · by_cases hself : r = names
    · rw [hself, withFile_self]
      simp
    · rw [withFile_above habove hself]
      simp
  · rw [withFile_of_not_above habove]
    exact h.link r target

theorem HoldsOnly.dir_or_none (h : HoldsOnly files content) (hapart : Apart (files ++ [(names, bytes)]))
    (hr : r <+: names) (hne : r ≠ names) : content r = none ∨ content r = some .dir := by
  cases hnode : content r with
  | none => exact .inl rfl
  | some m =>
      cases m with
      | dir => exact .inr rfl
      | link target => exact absurd hnode (h.link r target)
      | file b =>
          have hmem := (h.file r b).mp hnode
          have heq := hapart (r, b) (List.mem_append_left _ hmem) (names, bytes) (by simp) hr
          exact absurd (congrArg Prod.fst heq) hne

theorem HoldsOnly.file_or_none (h : HoldsOnly files content) (hapart : Apart (files ++ [(names, bytes)]))
    (hne : names ≠ []) {m : Node} (hnode : content names = some m) : ∃ b, m = .file b := by
  cases m with
  | file b => exact ⟨b, rfl⟩
  | link target => exact absurd hnode (h.link names target)
  | dir =>
      obtain ⟨f, hf, hpre, hother⟩ := (h.dir names hne).mp hnode
      have heq := hapart (names, bytes) (by simp) f (List.mem_append_left _ hf) hpre
      exact absurd (congrArg Prod.fst heq) hother

end Contents

section Held

variable {files : List (List Text × ByteArray)} {names : List Text} {bytes : ByteArray}

theorem Laid.node?_eq (h : Laid base p t content) (hsite : Site base up p) (names : List Text) :
    t.node? (p ++ names) = if names = [] then some .dir else content names := by
  split
  · rename_i hnames
    rw [hnames, List.append_nil, h.outside p (by simp), hsite.isDir]
  · rename_i hnames
    exact h.below names hnames

theorem Laid.file_iff (h : Laid base p t content) (hsite : Site base up p) (hholds : HoldsOnly files content)
    (hne : ∀ f ∈ files, f.1 ≠ []) : t.node? (p ++ names) = some (.file bytes) ↔ (names, bytes) ∈ files := by
  rw [h.node?_eq hsite]
  split
  · rename_i hnames
    refine iff_of_false (by simp) fun hmem => hne _ hmem hnames
  · exact hholds.file names bytes

theorem Laid.dir_iff (h : Laid base p t content) (hholds : HoldsOnly files content) (hnames : names ≠ []) :
    t.node? (p ++ names) = some .dir ↔ ∃ more bytes, more ≠ [] ∧ (names ++ more, bytes) ∈ files := by
  rw [h.below names hnames, hholds.dir names hnames]
  constructor
  · rintro ⟨⟨_, bytes⟩, hf, ⟨more, rfl⟩, hother⟩
    exact ⟨more, bytes, fun hmore => hother (by simp [hmore]), hf⟩
  · rintro ⟨more, bytes, hmore, hf⟩
    exact ⟨_, hf, List.prefix_append names more, by simpa using Ne.symm hmore⟩

theorem Laid.not_link (h : Laid base p t content) (hsite : Site base up p) (hholds : HoldsOnly files content)
    (target : Text) : t.node? (p ++ names) ≠ some (.link target) := by
  rw [h.node?_eq hsite]
  split
  · simp
  · exact hholds.link names target

theorem Laid.read (h : Laid base p t content) (hsite : Site base up p) (hholds : HoldsOnly files content)
    (hup : Rooted k up) (hfits : Fits k up names) (hne : names ≠ []) (hmem : (names, bytes) ∈ files) :
    t.read (rootedAt k (up ++ names)) = .ok bytes := by
  have hway : ∀ s, s ≠ [] → s <+: names → s ≠ names → content s = some .dir :=
    fun s hs hpre hother => (hholds.dir s hs).mpr ⟨_, hmem, hpre, hother⟩
  have hlocate := h.locate hsite hup hfits hway fun _ => hholds.link names
  exact read_eq_ok_iff.mpr ⟨_, hlocate, (h.below names hne).trans ((hholds.file names bytes).mpr hmem)⟩

end Held

section Start

theorem Fresh.site (h : Fresh t (rootedAt k up) p) (hup : Rooted k up) :
    Site (t.makeDirs (rootedAt k up)).tree up p := by
  have hleads := h.leads
  rw [locate_rootedAt hup (askable_of_locate hleads)] at hleads
  exact ⟨hleads, h.isDir⟩

theorem Fresh.laid {dir : Text} (h : Fresh t dir p) :
    Laid (t.makeDirs dir).tree p (t.makeDirs dir).tree fun _ => none :=
  ⟨.refl _, h.empty, fun _ _ => rfl⟩

theorem fresh_of_absent {d : Text} (hsite : Site t up p) (hup : Rooted 1 up) (hfits : Fits 1 up (d :: ds))
    (habsent : ∀ r, t.node? (p ++ d :: r) = none) :
    Fresh t (rootedAt 1 (up ++ d :: ds)) (p ++ d :: ds) := by
  have hlaid : Laid t p t fun r => t.node? (p ++ r) := ⟨.refl _, fun _ _ => rfl, fun _ _ => rfl⟩
  obtain ⟨u, hmade, hmine⟩ := hlaid.makeDirs hsite hup hfits fun s hs hpre => by
    obtain ⟨e, s, rfl⟩ := List.exists_cons_of_ne_nil hs
    obtain rfl := (List.cons_prefix_cons.mp hpre).1
    exact .inl (habsent s)
  have hdirs : t.makeDirs (rootedAt 1 (up ++ d :: ds)) = { tree := u } := by
    rw [makeDirs_rootedAt t (hfits.rooted hup), hmade]
  obtain ⟨hleads, hdir⟩ := hmine.locate_dirs hsite hup hfits
  refine ⟨?_, ?_, ?_, fun r hr => ?_⟩ <;> rw [hdirs]
  · exact hleads
  · exact hdir
  · have hbelow : ¬ d :: ds ++ r <+: d :: ds := by
      intro hpre
      have hlength := hpre.length_le
      rw [List.length_append] at hlength
      exact hr (List.length_eq_zero_iff.mp (by omega))
    rw [List.append_assoc, hmine.below _ (by simp), withDirs, if_neg hbelow]
    exact habsent (ds ++ r)

end Start

end CodeCompaction.FileTree.Tree
