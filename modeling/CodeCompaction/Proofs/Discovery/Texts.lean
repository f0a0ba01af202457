import Mathlib
import CodeCompaction.Proofs.Discovery.Visits

namespace CodeCompaction.Discovery

open CodeCompaction.Path CodeCompaction.FileTree

variable {t : Tree} {fs : List Found} {is : List FileInfo} {es : List Log.Entry} {k : Nat} {up names more : List Text}
variable {path current given : Text} {bytes bytes' : ByteArray} {i : FileInfo}

structure VisibleText (t : Tree) (path : Text) (names : List Text) (bytes : ByteArray) : Prop where
  nonempty : names ≠ []
  named : ∀ n ∈ names, isName n = true
  holds : t.read (join path (slashed names)) = .ok bytes
  visible : isHidden (slashed names) = false
  isText : isText (join path (slashed names)) = true
  small : bytes.size ≤ maxFileSize
  utf8 : ∃ content, content.isScalar = true ∧ encode content = bytes

section Texts

def ReadsText (t : Tree) (f : Found) (content : Text) : Prop :=
  t.read f.path = .ok (encode content) ∧ content.isScalar = true ∧ (encode content).size ≤ maxFileSize ∧
    isText f.path = true

theorem mem_texts_iff (h : Reads t fs is es) :
    i ∈ is.filter FileInfo.isText ↔ ∃ f ∈ fs, ∃ content, ReadsText t f content ∧ i = infoOf f true content := by
  induction h with
  | nil => simp
  | @tooLarge f fs is es bytes hread hlarge _ ih =>
      have hnone : ¬ ∃ content, ReadsText t f content ∧ i = infoOf f true content := by
        rintro ⟨content, ⟨hread', -, hsmall, -⟩, -⟩
        rw [Except.ok.inj (hread.symm.trans hread')] at hlarge
        omega
      rw [ih, List.exists_mem_cons_iff, or_iff_right hnone]
  | @notUtf8 f fs is es bytes hread _ _ hbad _ ih =>
      have hnone : ¬ ∃ content, ReadsText t f content ∧ i = infoOf f true content := by
        rintro ⟨content, ⟨hread', hscalar, -⟩, -⟩
        exact hbad content hscalar (Except.ok.inj (hread'.symm.trans hread))
      rw [ih, List.exists_mem_cons_iff, or_iff_right hnone]
  | @text f fs is es content hread hscalar hsmall htext _ ih =>
      have hsome : (∃ content, ReadsText t f content ∧ i = infoOf f true content) ↔ i = infoOf f true content := by
        constructor
        · rintro ⟨content', ⟨hread', hscalar', -⟩, rfl⟩
          rw [encode_injective hscalar' hscalar (Except.ok.inj (hread'.symm.trans hread))]
        · exact fun hi => ⟨content, ⟨hread, hscalar, hsmall, htext⟩, hi⟩
      rw [List.filter_cons_of_pos rfl, List.mem_cons, ih, List.exists_mem_cons_iff, hsome]
  | @other f fs is es bytes _ _ hother _ ih =>
      have hnone : ¬ ∃ content, ReadsText t f content ∧ i = infoOf f true content := by
        rintro ⟨content, ⟨-, -, -, htext⟩, -⟩
        exact absurd (htext.symm.trans hother) (by simp)
      rw [List.filter_cons_of_neg (by simp [infoOf]), ih, List.exists_mem_cons_iff, or_iff_right hnone]

theorem isFile_of_read (h : t.read path = .ok bytes) : t.isFile path = true := by
  obtain ⟨p, hlocate, hnode⟩ := Tree.read_eq_ok_iff.mp h
  exact Tree.isFile_iff.mpr ⟨bytes, Tree.at?_eq_some_iff.mpr ⟨p, hlocate, hnode⟩⟩

def foundAt (path : Text) (names : List Text) : Found :=
  { path := join path (slashed names), relative := slashed names }

theorem VisibleText.mem_everyFile (ht : t.isWellNamed = true) (h : Rooted k up)
    (hdir : t.isDir (rootedAt k up) = true) (htext : VisibleText t (rootedAt k up) names bytes) :
    foundAt (rootedAt k up) names ∈ everyFile t maxDepth (rootedAt k up) [] := by
  rw [mem_everyFile_maxDepth ht h (shallow_maxDepth ht h hdir)]
  exact ⟨names, htext.nonempty, htext.named, rfl, rfl, isFile_of_read htext.holds⟩

theorem VisibleText.mem_walk (ht : t.isWellNamed = true) (h : Rooted k up)
    (hdir : t.isDir (rootedAt k up) = true) (htext : VisibleText t (rootedAt k up) names bytes)
    (hentered : names.dropLast.any slips = false) : foundAt (rootedAt k up) names ∈ walk t (rootedAt k up) := by
  rw [walk_eq_filter ht h, List.mem_filter]
  refine ⟨htext.mem_everyFile ht h hdir, ?_⟩
  rw [foundAt, passesDot_iff htext.nonempty htext.named htext.visible, hentered, htext.visible]
  rfl

theorem mem_texts_of_dir_iff (ht : t.isWellNamed = true) (h : Rooted k up)
    (hpath : absolute current given = rootedAt k up) (hdir : t.isDir (rootedAt k up) = true)
    (hentered : ∀ names bytes, VisibleText t (rootedAt k up) names bytes → names.dropLast.any slips = false) :
    i ∈ (readPaths t current [given]).value.filter FileInfo.isText ↔
      ∃ names content, VisibleText t (rootedAt k up) names (encode content) ∧ content.isScalar = true ∧
        i = infoOf (foundAt (rootedAt k up) names) true content := by
  have hshallow := shallow_maxDepth ht h hdir
  have hfound : ∀ f ∈ walk t (rootedAt k up), f ∈ everyFile t maxDepth (rootedAt k up) [] ∧
      isHidden f.relative = false := by
    intro f hf
    rw [walk_eq_filter ht h, List.mem_filter, Bool.and_eq_true, Bool.not_eq_true'] at hf
    exact ⟨hf.1, hf.2.1⟩
  have hreads := reads_readAll fun f hf =>
    let ⟨hne, hfile, _⟩ := visible_of_mem ht h hshallow (hfound f hf).1
    ⟨hfile, hne⟩
  rw [(readPaths_of_dir (hpath ▸ hdir)).1, hpath, mem_texts_iff hreads]
  constructor
  · rintro ⟨f, hf, content, ⟨hread, hscalar, hsmall, htext⟩, rfl⟩
    obtain ⟨hmem, hvisible⟩ := hfound f hf
    obtain ⟨names, hne, hnames, hrelative, hjoin, -⟩ := (mem_everyFile_maxDepth ht h hshallow).mp hmem
    obtain ⟨path, relative⟩ := f
    obtain rfl : relative = slashed names := hrelative
    obtain rfl : path = join (rootedAt k up) (slashed names) := hjoin
    exact ⟨names, content, ⟨hne, hnames, hread, hvisible, htext, hsmall, content, hscalar, rfl⟩, hscalar, rfl⟩
  · rintro ⟨names, content, htext, hscalar, rfl⟩
    exact ⟨_, htext.mem_walk ht h hdir (hentered _ _ htext), content,
      ⟨htext.holds, hscalar, htext.small, htext.isText⟩, rfl⟩

end Texts

section Names

theorem VisibleText.contains (htext : VisibleText t (rootedAt k up) names bytes) (h : Rooted k up) :
    t.contains (rootedAt k (up ++ names)) = true := by
  rw [← join_slashed h htext.nonempty htext.named]
  exact Tree.contains_of_isFile (isFile_of_read htext.holds)

theorem short_of_contains (h : Rooted k (up ++ names)) (hthere : t.contains (rootedAt k (up ++ names)) = true) :
    ∀ n ∈ names, n.nameSize ≤ maxNameBytes := by
  induction names using List.reverseRecOn with
  | nil => simp
  | append_singleton names n ih =>
      rw [← List.append_assoc] at h hthere
      obtain ⟨-, -, -, hshort, -⟩ := Tree.exists_above h hthere
      have hrest := ih h.above (Tree.contains_of_isDir (Tree.mem_listing_above h hthere).1)
      exact List.forall_mem_append.mpr ⟨hrest, by simpa using hshort⟩

theorem VisibleText.unique (htext : VisibleText t path names bytes) (hother : VisibleText t path names bytes') :
    bytes = bytes' :=
  Except.ok.inj (htext.holds.symm.trans hother.holds)

theorem VisibleText.eq_of_isPrefix (h : Rooted k up) (htext : VisibleText t (rootedAt k up) names bytes)
    (hother : VisibleText t (rootedAt k up) more bytes') (hpre : names <+: more) : names = more := by
  obtain ⟨rest, rfl⟩ := hpre
  by_contra hne
  have hrest : rest ≠ [] := fun heq => hne (by simp [heq])
  have hnames : ∀ n ∈ rest, isName n = true := fun n hn => hother.named n (List.mem_append_right _ hn)
  have hthere := hother.contains h
  rw [← List.append_assoc] at hthere
  have hdir := isDir_of_contains_below (h.below htext.named) hnames hrest hthere
  rw [← join_slashed h htext.nonempty htext.named] at hdir
  -- the text would be a directory as well
  obtain ⟨p, hlocate, hnode⟩ := Tree.read_eq_ok_iff.mp htext.holds
  obtain ⟨x, hx, hxdir⟩ := Tree.exists_dirPlace hdir
  obtain rfl : p = x := Except.ok.inj (hlocate.symm.trans hx)
  exact Node.noConfusion (Option.some.inj (hnode.symm.trans hxdir))

end Names

end CodeCompaction.Discovery
