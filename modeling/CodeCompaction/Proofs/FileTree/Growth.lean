import Mathlib.Tactic.SplitIfs
import CodeCompaction.FileTree.Change
import CodeCompaction.Proofs.Text.Encoding

namespace CodeCompaction.FileTree

structure Askable (path : Text) : Prop where
  legal : path.pathRefusal? = none
  short : path.nameSize ≤ maxPathBytes

theorem Askable.of_sublist {s t : Text} (h : Askable t) (hst : s.Sublist t) : Askable s :=
  ⟨Text.pathRefusal?_of_subset hst.subset h.legal, (Text.nameSize_le_of_sublist hst).trans h.short⟩

end CodeCompaction.FileTree

namespace CodeCompaction.FileTree.Tree

open CodeCompaction.Path

variable {t u v : Tree} {p q here : Place} {n : Node} {path other : Text} {bytes content : ByteArray}

theorem node?_nil (t : Tree) : t.node? [] = some .dir := rfl

theorem isDirAt_iff : t.isDirAt p = true ↔ t.node? p = some .dir := by
  rw [isDirAt, beq_iff_eq]

section Growth

structure Grows (t u : Tree) : Prop where
  dir : ∀ {p : Place}, t.node? p = some .dir → u.node? p = some .dir
  link : ∀ {p : Place} {target : Text}, u.node? p = some (.link target) ↔ t.node? p = some (.link target)

theorem Grows.refl (t : Tree) : Grows t t := ⟨id, Iff.rfl⟩

theorem Grows.trans (h : Grows t u) (h' : Grows u v) : Grows t v :=
  ⟨fun hp => h'.dir (h.dir hp), h'.link.trans h.link⟩

theorem Grows.set (hroot : p ≠ []) (hfree : ∀ m, t.node? p = some m → ∃ b, m = .file b)
    (hn : n.isLink = false) : Grows t (t.set p n) := by
  refine ⟨fun {q} hq => ?_, fun {q target} => ?_⟩
  · have hne : q ≠ p := by
      rintro rfl
      obtain ⟨b, hb⟩ := hfree _ hq
      exact Node.noConfusion hb
    rw [node?_set_of_ne hne, hq]
  · by_cases hqp : q = p
    · subst hqp
      rw [node?_set_self hroot]
      refine ⟨fun hq => ?_, fun hq => ?_⟩
      · rw [Option.some.inj hq] at hn
        exact absurd hn (by simp [Node.isLink])
      · obtain ⟨b, hb⟩ := hfree _ hq
        exact Node.noConfusion hb
    · rw [node?_set_of_ne hqp]

theorem Grows.isDirAt (h : Grows t u) (hdir : ¬ (!t.isDirAt here) = true) : ¬ (!u.isDirAt here) = true := by
  have hhere : t.isDirAt here = true := by simpa using hdir
  simpa using isDirAt_iff.mpr (h.dir (isDirAt_iff.mp hhere))

theorem follow_of_grows {links : Nat} {parts : List Text} (h : Grows t u)
    (hfollow : t.follow links here parts = .ok p) : u.follow links here parts = .ok p := by
  fun_induction follow t links here parts with
  | case1 links here => rw [follow, hfollow]
  | case2 => exact absurd hfollow (by simp)
  | case3 links here part rest hdir hskip ih =>
      rw [follow, if_neg (h.isDirAt hdir), if_pos hskip]
      exact ih hfollow
  | case4 links here part rest hdir hskip hup ih =>
      rw [follow, if_neg (h.isDirAt hdir), if_neg hskip, if_pos hup]
      exact ih hfollow
  | case5 => exact absurd hfollow (by simp)
  | case6 => exact absurd hfollow (by simp)
  | case7 here part rest hdir hskip hup hshort target hlink links ih =>
      rw [follow, if_neg (h.isDirAt hdir), if_neg hskip, if_neg hup, if_neg hshort, h.link.mpr hlink]
      exact ih hfollow
  | case8 links here part rest hdir hskip hup hshort hplain ih =>
      rw [follow, if_neg (h.isDirAt hdir), if_neg hskip, if_neg hup, if_neg hshort]
      split
      · rename_i target hlink
        exact absurd (h.link.mp hlink) (hplain target)
      · exact ih hfollow

theorem locate_eq_ok_iff : t.locate path = .ok p ↔
    Askable path ∧ path.isEmpty = false ∧ t.follow maxLinks [] (parts path) = .ok p := by
  rw [locate]
  cases hlegal : path.pathRefusal? with
  | some e => exact iff_of_false (by simp) fun h => by simp [h.1.legal] at hlegal
  | none =>
      simp only
      split_ifs with hempty hlong
      · exact iff_of_false (by simp) fun h => by simp [h.2.1] at hempty
      · exact iff_of_false (by simp) fun h => absurd h.1.short (Nat.not_le.mpr hlong)
      · exact ⟨fun h => ⟨⟨hlegal, Nat.not_lt.mp hlong⟩, by simpa using hempty, h⟩, fun h => h.2.2⟩

theorem locate_of_grows (h : Grows t u) (hlocate : t.locate path = .ok p) : u.locate path = .ok p := by
  obtain ⟨hask, hempty, hfollow⟩ := locate_eq_ok_iff.mp hlocate
  exact locate_eq_ok_iff.mpr ⟨hask, hempty, follow_of_grows h hfollow⟩

end Growth

section Places

def Reached (t : Tree) (p : Place) : Prop :=
  (∀ q, q <+: p → q ≠ p → t.node? q = some .dir) ∧ ∀ target, t.node? p ≠ some (.link target)

theorem reached_nil (t : Tree) : Reached t [] := by
  refine ⟨fun q hq hne => absurd (List.prefix_nil.mp hq) hne, fun target h => ?_⟩
  rw [node?_nil] at h
  exact Node.noConfusion (Option.some.inj h)

theorem Reached.above (h : Reached t p) : Reached t p.dropLast := by
  rcases List.eq_nil_or_concat p with rfl | ⟨q, name, rfl⟩
  · exact h
  · rw [List.concat_eq_append, List.dropLast_concat]
    have hdir : t.node? q = some .dir := h.1 q (by simp) (by simp)
    refine ⟨fun r hr _ => h.1 r (hr.trans (by simp)) (fun heq => ?_), fun target hlink => ?_⟩
    · have hlen := hr.length_le
      rw [heq, List.length_concat] at hlen
      omega
    · rw [hdir] at hlink
      exact Node.noConfusion (Option.some.inj hlink)

theorem Reached.below {name : Text} (h : Reached t p) (hdir : t.node? p = some .dir)
    (hplain : ∀ target, t.node? (p ++ [name]) ≠ some (.link target)) : Reached t (p ++ [name]) := by
  refine ⟨fun q hq hne => ?_, hplain⟩
  by_cases hqp : q = p
  · rw [hqp, hdir]
  · refine h.1 q ?_ hqp
    rcases List.prefix_concat_iff.mp hq with heq | hpre
    · exact absurd heq (by simpa using hne)
    · exact hpre

theorem reached_follow {links : Nat} {parts : List Text} (hhere : Reached t here)
    (hfollow : t.follow links here parts = .ok p) : Reached t p := by
  fun_induction follow t links here parts with
  | case1 links here => exact Except.ok.inj hfollow ▸ hhere
  | case2 => exact absurd hfollow (by simp)
  | case3 links here part rest hdir hskip ih => exact ih hhere hfollow
  | case4 links here part rest hdir hskip hup ih => exact ih hhere.above hfollow
  | case5 => exact absurd hfollow (by simp)
  | case6 => exact absurd hfollow (by simp)
  | case7 here part rest hdir hskip hup hshort target hlink links ih =>
      refine ih ?_ hfollow
      split
      · exact reached_nil t
      · exact hhere
  | case8 links here part rest hdir hskip hup hshort hplain ih =>
      exact ih (hhere.below (isDirAt_iff.mp (by simpa using hdir)) hplain) hfollow

theorem reached_locate (hlocate : t.locate path = .ok p) : Reached t p :=
  reached_follow (reached_nil t) (locate_eq_ok_iff.mp hlocate).2.2

end Places

section Reading

theorem exists_of_bind_eq_ok {ε α β : Type} {x : Except ε α} {f : α → Except ε β} {b : β}
    (h : x >>= f = .ok b) : ∃ a, x = .ok a ∧ f a = .ok b := by
  cases x with
  | error e => exact absurd h (by simp [bind, Except.bind])
  | ok a => exact ⟨a, rfl, h⟩

theorem read_eq_ok_iff :
    t.read path = .ok bytes ↔ ∃ p, t.locate path = .ok p ∧ t.node? p = some (.file bytes) := by
  rw [read, stat]
  cases hlocate : t.locate path with
  | error f => simp [bind, Except.bind]
  | ok p =>
      cases hnode : t.node? p with
      | none => simp [bind, Except.bind, hnode]
      | some n => cases n <;> simp [bind, Except.bind, hnode]

theorem read_congr (h : t.locate other = t.locate path) : t.read other = t.read path := by
  rw [read, read, stat, stat, h]

theorem exists_place_of_write (h : t.write path bytes = .ok u) :
    ∃ p, t.locate path = .ok p ∧ p ≠ [] ∧ (∀ m, t.node? p = some m → ∃ b, m = .file b) ∧
      u = t.set p (.file bytes) := by
  rw [write] at h
  obtain ⟨p, hp, hu⟩ := exists_of_bind_eq_ok h
  rw [writable] at hp
  obtain ⟨q, hlocate, hq⟩ := exists_of_bind_eq_ok hp
  have hfree : q = p ∧ t.node? p ≠ some .dir := by
    split at hq
    · exact absurd hq (by simp)
    · rename_i m hne hnode
      obtain rfl := Except.ok.inj hq
      exact ⟨rfl, fun hdir => hne (Option.some.inj (hnode.symm.trans hdir))⟩
    · rename_i hnone
      split at hq
      · obtain rfl := Except.ok.inj hq
        exact ⟨rfl, by simp [hnone]⟩
      · exact absurd hq (by simp)
  obtain ⟨rfl, hdir⟩ := hfree
  refine ⟨q, hlocate, ?_, fun m hm => ?_, (Except.ok.inj hu).symm⟩
  · rintro rfl
    exact hdir (node?_nil t)
  · cases m with
    | dir => exact absurd hm hdir
    | file b => exact ⟨b, rfl⟩
    | link target => exact absurd hm ((reached_locate hlocate).2 target)

theorem grows_write (h : t.write path bytes = .ok u) : Grows t u := by
  obtain ⟨p, -, hroot, hfree, rfl⟩ := exists_place_of_write h
  exact Grows.set hroot hfree rfl

theorem read_write_self (h : t.write path bytes = .ok u) : u.read path = .ok bytes := by
  obtain ⟨p, hlocate, hroot, -, rfl⟩ := exists_place_of_write h
  exact read_eq_ok_iff.mpr ⟨p, locate_of_grows (grows_write h) hlocate, node?_set_self hroot⟩

theorem read_write_of_ne (h : t.write path bytes = .ok u) (hread : t.read other = .ok content)
    (hne : u.locate other ≠ u.locate path) : u.read other = .ok content := by
  obtain ⟨p, hlocate, hroot, hfree, rfl⟩ := exists_place_of_write h
  obtain ⟨q, hother, hnode⟩ := read_eq_ok_iff.mp hread
  have hq := locate_of_grows (grows_write h) hother
  rw [hq, locate_of_grows (grows_write h) hlocate] at hne
  exact read_eq_ok_iff.mpr ⟨q, hq, by rw [node?_set_of_ne (fun e => hne (congrArg _ e)), hnode]⟩

end Reading

section Directories

structure Adds (t u : Tree) : Prop where
  kept : ∀ {p : Place} {n : Node}, t.node? p = some n → u.node? p = some n
  dir : ∀ {p : Place} {n : Node}, t.node? p = none → u.node? p = some n → n = .dir

theorem Adds.refl (t : Tree) : Adds t t := ⟨id, fun hnone hsome => absurd (hnone.symm.trans hsome) (by simp)⟩

theorem Adds.trans (h : Adds t u) (h' : Adds u v) : Adds t v := by
  refine ⟨fun hp => h'.kept (h.kept hp), fun {p n} hnone hsome => ?_⟩
  cases hu : u.node? p with
  | none => exact h'.dir hu hsome
  | some m =>
      obtain rfl := Option.some.inj ((h'.kept hu).symm.trans hsome)
      exact h.dir hnone hu

theorem Adds.grows (h : Adds t u) : Grows t u := by
  refine ⟨h.kept, fun {p target} => ⟨fun hu => ?_, h.kept⟩⟩
  cases ht : t.node? p with
  | none => exact Node.noConfusion (h.dir ht hu)
  | some m => rw [(h.kept ht).symm.trans hu]

theorem Adds.read (h : Adds t u) (hread : t.read path = .ok bytes) : u.read path = .ok bytes := by
  obtain ⟨p, hlocate, hnode⟩ := read_eq_ok_iff.mp hread
  exact read_eq_ok_iff.mpr ⟨p, locate_of_grows h.grows hlocate, h.kept hnode⟩

theorem Adds.set (hroot : p ≠ []) (hnone : t.node? p = none) : Adds t (t.set p .dir) := by
  refine ⟨fun {q n} hq => ?_, fun {q n} hq hn => ?_⟩
  · have hne : q ≠ p := by
      rintro rfl
      exact absurd (hnone.symm.trans hq) (by simp)
    rw [node?_set_of_ne hne, hq]
  · by_cases hqp : q = p
    · rw [hqp, node?_set_self hroot] at hn
      exact (Option.some.inj hn).symm
    · rw [node?_set_of_ne hqp, hq] at hn
      exact absurd hn (by simp)

theorem adds_makeDir (h : t.makeDir path = .ok u) : Adds t u := by
  rw [makeDir] at h
  obtain ⟨-, -, h⟩ := exists_of_bind_eq_ok h
  obtain ⟨parent, -, h⟩ := exists_of_bind_eq_ok h
  simp only at h
  split_ifs at h with hparent hname hlong hpath hthere
  obtain rfl := Except.ok.inj h
  exact Adds.set (by simp) (by simpa using hthere)

theorem adds_ensureDir (t : Tree) (path : Text) : Adds t (t.ensureDir path).tree := by
  rw [ensureDir]
  split
  · rename_i u h
    exact adds_makeDir h
  · exact Adds.refl t

theorem adds_makeDirsUp (t : Tree) (names : List Text) : Adds t (t.makeDirsUp names).tree := by
  induction names generalizing t with
  | nil => exact adds_ensureDir t _
  | cons name up ih =>
      rw [makeDirsUp]
      have habove : Adds t
          (if t.contains (rooted up) then ({ tree := t } : Attempt) else t.makeDirsUp up).tree := by
        split
        · exact Adds.refl t
        · exact ih t
      split
      · exact habove.trans (adds_ensureDir _ _)
      · exact habove
      · exact habove.trans (adds_ensureDir _ _)

theorem adds_makeDirs (t : Tree) (path : Text) : Adds t (t.makeDirs path).tree := adds_makeDirsUp t _

end Directories

end CodeCompaction.FileTree.Tree
