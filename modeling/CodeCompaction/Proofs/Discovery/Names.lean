import CodeCompaction.Discovery.Read
import CodeCompaction.Proofs.Path.Output

namespace CodeCompaction.FileTree

open CodeCompaction.Path

variable {t : Tree} {p : Place} {n : Text}

def Tree.isWellNamed (t : Tree) : Bool := t.entries.all (fun e => e.1.all isName)

theorem isName_of_mem_children (ht : t.isWellNamed = true) (h : n ∈ t.children p) : isName n = true := by
  obtain ⟨e, he, hn⟩ := List.mem_filterMap.mp h
  have hall := List.all_eq_true.mp (List.all_eq_true.mp ht e he)
  split at hn
  · exact hall n (List.mem_of_getLast? hn)
  · simp at hn

theorem isName_of_mem_listing (ht : t.isWellNamed = true) {path : Text} (h : n ∈ t.listing path) :
    isName n = true := by
  rw [Tree.listing] at h
  split at h
  · split at h
    · exact isName_of_mem_children ht h
    · simp at h
  · simp at h

end CodeCompaction.FileTree

namespace CodeCompaction.Discovery

open CodeCompaction.Path CodeCompaction.Text CodeCompaction.FileTree

section Texts

def isMark (c : CodePoint) : Bool := c == '.' || c == '/' || c == '\\'

theorem lowerAfter_of_marks (before : Text) {t : Text} (h : t.all isMark = true) : lowerAfter before t = t := by
  induction t generalizing before with
  | nil => rfl
  | cons c t ih =>
      rw [List.all_cons, Bool.and_eq_true] at h
      rw [lowerAfter, ih _ h.2]
      have hc := h.1
      simp only [isMark, Bool.or_eq_true, beq_iff_eq] at hc
      rcases hc with (rfl | rfl) | rfl <;> rfl

theorem exists_not_mark_of_isTextExtension {t : Text} (h : isTextExtension t = true) :
    ∃ c ∈ t, isMark c = false := by
  have hlisted : textExtensions.all (fun e => !e.toText.all isMark) = true := by decide
  obtain ⟨e, he, heq⟩ := List.any_eq_true.mp h
  have hmarks : t.all isMark = false := by
    by_contra hall
    rw [Bool.not_eq_false] at hall
    have hlower : lower t = t := lowerAfter_of_marks [] hall
    have hnot := List.all_eq_true.mp hlisted e he
    rw [beq_iff_eq.mp heq, hlower, hall] at hnot
    simp at hnot
  simpa using hmarks

theorem mem_dropWhile_of_not_mark {n : Text} {c : CodePoint} (hc : c ∈ n) (hmark : isMark c = false) :
    c ∈ n.dropWhile Path.isAnySlash := by
  rw [← List.takeWhile_append_dropWhile (p := Path.isAnySlash) (l := n), List.mem_append] at hc
  refine hc.resolve_left (fun hm => ?_)
  have hslash := List.mem_takeWhile_imp hm
  simp_all [isMark, Path.isAnySlash]

theorem isAllDots_of_not_mark {n : Text} {c : CodePoint} (hc : c ∈ n) (hmark : isMark c = false) :
    isAllDots (n.dropWhile Path.isAnySlash) = false := by
  rw [isAllDots, List.all_eq_false]
  refine ⟨c, mem_dropWhile_of_not_mark hc hmark, ?_⟩
  rintro hdot
  simp_all [isMark]

theorem isAllDots_of_isText {path : Text} (h : isText path = true) :
    isAllDots ((baseName path).dropWhile Path.isAnySlash) = false := by
  simp only [isText, Bool.or_eq_true] at h
  generalize baseName path = n at h ⊢
  rcases h with ((h | h) | h) | h
  · obtain ⟨c, hc, hmark⟩ := exists_not_mark_of_isTextExtension (Bool.and_eq_true_iff.mp h).2
    refine isAllDots_of_not_mark (c := c) ?_ hmark
    rw [splitExtension, List.splitAt_eq] at hc
    exact List.mem_of_mem_drop (List.mem_of_mem_drop hc)
  · obtain ⟨c, hc, hmark⟩ := exists_not_mark_of_isTextExtension h
    exact isAllDots_of_not_mark hc hmark
  · have hlisted : textDotFiles.all (fun e => !e.toText.all isMark) = true := by decide
    obtain ⟨e, he, heq⟩ := List.any_eq_true.mp h
    have hnot := List.all_eq_true.mp hlisted e he
    rw [beq_iff_eq.mp heq] at hnot
    obtain ⟨c, hc, hmark⟩ : ∃ c ∈ n, isMark c = false := by simpa using hnot
    exact isAllDots_of_not_mark hc hmark
  · -- here what stands behind the dot may be a slash of the other kind
    unfold isBareDotFile at h
    split at h
    · rename_i c cs
      have hdot : c ≠ '.' := by
        rintro rfl
        simp at h
      rw [List.dropWhile_cons_of_neg (by decide), isAllDots, List.all_eq_false]
      exact ⟨c, by simp, by simpa using hdot⟩
    · simp at h

end Texts

section Walk

variable {t : Tree} {enter : Text → Bool} {up : List Text} {dir n : Text} {f : Found}

theorem below_slashed (hup : ∀ x ∈ up, isName x = true) (n : Text) :
    below (slashed up) n = slashed (up ++ [n]) := by
  by_cases hne : up = []
  · rw [hne, List.nil_append, slashed_singleton]
    rfl
  · have hempty : (slashed up).isEmpty = false := by simpa using slashed_ne_nil hne hup
    rw [below, hempty, slashed_append hne (List.cons_ne_nil _ _), slashed_singleton]
    rfl

theorem baseName_join (dir : Text) (hn : isName n = true) : baseName (join dir n) = n := by
  obtain ⟨hne, hslash, -⟩ := isName_iff.mp hn
  have hhead : (n.head? == some (ch '/')) = false := by
    simpa using head?_slashed_cons hne hslash [] []
  rw [join, hhead]
  simp only [Bool.false_eq_true, if_false]
  split
  · rename_i hend
    rcases Bool.or_eq_true_iff.mp hend with hempty | hlast
    · rw [List.isEmpty_iff.mp hempty, List.nil_append, baseName_of_no_slash hslash]
    · obtain ⟨d, rfl⟩ := List.getLast?_eq_some_iff.mp (beq_iff_eq.mp hlast)
      rw [List.append_assoc, List.singleton_append, baseName_append_slash d hslash]
  · exact baseName_append_slash dir hslash

theorem isName_of_mem_sorted (ht : t.isWellNamed = true) (h : n ∈ sorted (t.listing dir)) :
    isName n = true :=
  isName_of_mem_listing ht (List.mem_mergeSort.mp h)

theorem names_of_mem_walkWith (ht : t.isWellNamed = true) {depth : Nat}
    (hup : ∀ x ∈ up, isName x = true) (h : f ∈ walkWith enter t depth dir (slashed up)) :
    ∃ names n, (∀ x ∈ names ++ [n], isName x = true) ∧ f.relative = slashed (names ++ [n]) ∧
      baseName f.path = n := by
  induction depth generalizing dir up with
  | zero => simp [walkWith] at h
  | succ depth ih =>
      rw [walkWith] at h
      rcases List.mem_append.mp h with h | h
      · obtain ⟨n, hn, rfl⟩ := List.mem_map.mp h
        have hname := isName_of_mem_sorted ht (List.mem_filter.mp hn).1
        exact ⟨up, n, List.forall_mem_append.mpr ⟨hup, by simpa using hname⟩, below_slashed hup n,
          baseName_join dir hname⟩
      · obtain ⟨d, hd, hf⟩ := List.mem_flatMap.mp h
        have hdir := (List.mem_filter.mp (List.mem_filter.mp hd).1).1
        rw [below_slashed hup] at hf
        exact ih (List.forall_mem_append.mpr ⟨hup, by simpa using isName_of_mem_sorted ht hdir⟩) hf

end Walk

section Reading

variable {t : Tree} {path relative current given : Text} {i : FileInfo} {fs : List Found}

theorem readInfo_fields (h : readInfo t path relative = .ok i) : i.path = path ∧ i.name = baseName path ∧
    i.isText = isText path ∧ i.relative = if relative.isEmpty then baseName path else relative := by
  simp only [readInfo] at h
  split at h
  · simp at h
  · split at h
    · simp at h
    · split at h
      · rename_i htext
        cases hread : readText t path with
        | error e => simp [hread, Except.map] at h
        | ok content =>
            rw [hread] at h
            obtain rfl := Except.ok.inj h
            exact ⟨rfl, rfl, htext.symm, rfl⟩
      · rename_i htext
        obtain rfl := Except.ok.inj h
        exact ⟨rfl, rfl, by simpa using htext, rfl⟩

theorem mem_value_readAll : i ∈ (readAll t fs).value ↔ ∃ f ∈ fs, readInfo t f.path f.relative = .ok i := by
  induction fs with
  | nil => simp [readAll]
  | cons f fs ih =>
      rw [readAll]
      simp only [Logged.value_bind, Logged.value_pure, List.mem_append, ih, List.exists_mem_cons_iff]
      refine or_congr_left ?_
      rw [readInfoLogged]
      cases readInfo t f.path f.relative with
      | error e => simp
      | ok info => simp [eq_comm]

structure TextNames (shown name : Text) (names : List Text) : Prop where
  shown_eq : shown = slashed (names ++ [name])
  named : ∀ x ∈ names ++ [name], isName x = true
  ink : isAllDots (name.dropWhile Path.isAnySlash) = false

theorem exists_found_of_mem_readPath (h : i ∈ (readPath t current given).value) :
    ∃ f : Found, readInfo t f.path f.relative = .ok i ∧
      (f ∈ walk t (absolute current given) ∨
        f.path = absolute current given ∧ f.relative = baseName (absolute current given)) := by
  rw [readPath] at h
  split at h
  · simp at h
  · split at h
    · obtain ⟨f, hf, hread⟩ := mem_value_readAll.mp h
      rw [List.mem_singleton] at hf
      exact ⟨f, hread, .inr (by rw [hf]; exact ⟨rfl, rfl⟩)⟩
    · obtain ⟨f, hf, hread⟩ := mem_value_readAll.mp h
      exact ⟨f, hread, .inl hf⟩

theorem exists_textNames_of_mem_readPath (ht : t.isWellNamed = true) (hcurrent : isAbsolute current = true)
    (h : i ∈ (readPath t current given).value) (htext : i.isText = true) :
    ∃ names, TextNames i.relative i.name names := by
  obtain ⟨f, hread, hf⟩ := exists_found_of_mem_readPath h
  obtain ⟨-, hname, htext', hshown⟩ := readInfo_fields hread
  have hink : isAllDots (i.name.dropWhile Path.isAnySlash) = false := by
    rw [hname]
    exact isAllDots_of_isText (htext'.symm.trans htext)
  rcases hf with hwalk | ⟨hpath, hrelative⟩
  · obtain ⟨names, n, hnamed, hrel, hbase⟩ :=
      names_of_mem_walkWith ht (List.forall_mem_nil _) (List.mem_filter.mp hwalk).1
    have hempty : f.relative.isEmpty = false := by
      rw [hrel]
      simpa using slashed_ne_nil (by simp) hnamed
    rw [hempty, if_neg Bool.false_ne_true, hrel] at hshown
    rw [hbase] at hname
    subst hname
    exact ⟨names, hshown, hnamed, hink⟩
  · have hshown' : i.relative = i.name := by
      rw [hshown, hname, hrelative, hpath]
      split <;> rfl
    obtain ⟨n, names, hrooted, hnormal⟩ := exists_rooted_absolute hcurrent given
    have hbase : i.name = names.getLast?.getD [] := by
      rw [hname, hpath, hnormal, baseName_rootedAt hrooted]
    have hnamed : isName i.name = true := by
      rcases List.eq_nil_or_concat names with rfl | ⟨init, x, hconcat⟩
      · rw [hbase] at hink
        exact absurd hink (by decide)
      · rw [hbase, hconcat]
        simpa using hrooted.named x (by simp [hconcat])
    exact ⟨[], by rw [hshown', List.nil_append, slashed_singleton], by simpa using hnamed, hink⟩

end Reading

end CodeCompaction.Discovery
