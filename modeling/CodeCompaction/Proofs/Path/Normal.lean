import CodeCompaction.Path.Parts
import CodeCompaction.Proofs.Text.Splitting

namespace CodeCompaction.Path

open CodeCompaction.Text

def isName (n : Text) : Bool := !n.isEmpty && !n.contains '/' && n != [ch '.'] && n != [ch '.', '.']

theorem isName_iff {n : Text} :
    isName n = true ↔ n ≠ [] ∧ ch '/' ∉ n ∧ n ≠ [ch '.'] ∧ n ≠ [ch '.', '.'] := by
  simp [isName, and_assoc]

section Parts

variable {a n p : Text} {names more : List Text}

theorem parts_of_no_slash (h : ch '/' ∉ a) : parts a = [a] := by
  refine pieces_of_no_separator (fun c hc => ?_)
  rw [isSlash, beq_eq_false_iff_ne]
  rintro rfl
  exact h hc

theorem parts_append_slash (a t : Text) : parts (a ++ ch '/' :: t) = parts a ++ parts t :=
  pieces_append_separator (by decide) a t

theorem parts_slash_cons (t : Text) : parts (ch '/' :: t) = [] :: parts t := parts_append_slash [] t

theorem slash_not_mem_of_mem_parts (h : n ∈ parts p) : ch '/' ∉ n := by
  induction p generalizing n with
  | nil =>
      obtain rfl := List.mem_singleton.mp h
      exact List.not_mem_nil
  | cons c p ih =>
      by_cases hc : c = '/'
      · subst hc
        rw [parts_slash_cons] at h
        rcases List.mem_cons.mp h with rfl | h
        · exact List.not_mem_nil
        · exact ih h
      · have hsep : isSlash c = false := by simpa [isSlash] using hc
        rw [parts, pieces, if_neg (by simp [hsep])] at h
        rw [parts] at ih
        cases hp : pieces isSlash p with
        | nil => exact absurd hp (pieces_ne_nil isSlash p)
        | cons q qs =>
            rw [hp] at h ih
            rcases List.mem_cons.mp h with rfl | h
            · exact List.not_mem_cons_of_ne_of_not_mem (Ne.symm hc) (ih (List.mem_cons_self ..))
            · exact ih (List.mem_cons_of_mem _ h)

@[simp] theorem slashed_nil : slashed [] = [] := rfl

@[simp] theorem slashed_singleton (n : Text) : slashed [n] = n := by simp [slashed]

theorem slashed_cons (n : Text) (h : names ≠ []) : slashed (n :: names) = n ++ ch '/' :: slashed names := by
  rw [slashed, List.intercalate_cons_of_ne_nil h, List.append_assoc]
  rfl

theorem slashed_append (h : names ≠ []) (h' : more ≠ []) :
    slashed (names ++ more) = slashed names ++ ch '/' :: slashed more := by
  induction names with
  | nil => exact absurd rfl h
  | cons n names ih =>
      cases names with
      | nil => rw [List.singleton_append, slashed_cons n h', slashed_singleton]
      | cons m names =>
          rw [List.cons_append, slashed_cons n (by simp), ih (List.cons_ne_nil _ _),
            slashed_cons n (List.cons_ne_nil _ _), List.append_assoc, List.cons_append]

theorem mem_slashed {c : CodePoint} (h : c ∈ slashed names) : c = '/' ∨ ∃ n ∈ names, c ∈ n := by
  induction names with
  | nil => simp at h
  | cons n names ih =>
      by_cases hne : names = []
      · subst hne
        rw [slashed_singleton] at h
        exact .inr ⟨n, by simp, h⟩
      · rw [slashed_cons n hne, List.mem_append, List.mem_cons] at h
        rcases h with h | h | h
        · exact .inr ⟨n, by simp, h⟩
        · exact .inl h
        · exact (ih h).imp id fun ⟨m, hm, hc⟩ => ⟨m, List.mem_cons_of_mem _ hm, hc⟩

theorem slashed_isPrefix (xs ys : List Text) : slashed xs <+: slashed (xs ++ ys) := by
  by_cases hxs : xs = []
  · simp [hxs]
  · by_cases hys : ys = []
    · simp [hys]
    · rw [slashed_append hxs hys]
      exact List.prefix_append _ _

theorem parts_slashed (hne : names ≠ []) (h : ∀ n ∈ names, ch '/' ∉ n) : parts (slashed names) = names := by
  induction names with
  | nil => exact absurd rfl hne
  | cons n names ih =>
      have hn := h n (List.mem_cons_self ..)
      cases names with
      | nil => rw [slashed_singleton, parts_of_no_slash hn]
      | cons m names =>
          have hrest := ih (List.cons_ne_nil _ _) (fun x hx => h x (List.mem_cons_of_mem _ hx))
          rw [slashed_cons n (List.cons_ne_nil _ _), parts_append_slash, parts_of_no_slash hn, hrest,
            List.singleton_append]

theorem takeWhile_reverse_of_not_mem {sep : CodePoint} (h : sep ∉ n) (t : Text) :
    (n.reverse ++ t).takeWhile (· != sep) = n.reverse ++ t.takeWhile (· != sep) := by
  refine List.takeWhile_append_of_pos (fun c hc => ?_)
  rw [bne_iff_ne]
  rintro rfl
  exact h (List.mem_reverse.mp hc)

theorem afterLast_append {sep : CodePoint} (a : Text) (h : sep ∉ n) : afterLast sep (a ++ sep :: n) = n := by
  rw [afterLast, List.reverse_append, List.reverse_cons, List.append_assoc, takeWhile_reverse_of_not_mem h,
    List.singleton_append, List.takeWhile_cons_of_neg (by simp), List.append_nil, List.reverse_reverse]

theorem baseName_append_slash (a : Text) (h : ch '/' ∉ n) : baseName (a ++ ch '/' :: n) = n := afterLast_append a h

theorem baseName_of_no_slash (h : ch '/' ∉ n) : baseName n = n := by
  have hrun := takeWhile_reverse_of_not_mem h []
  rw [List.append_nil, List.takeWhile_nil, List.append_nil] at hrun
  rw [baseName, afterLast, hrun, List.reverse_reverse]

end Parts

section Resolution

variable {rooted : Bool} {acc names ps : List Text}

theorem resolveParts_empties (rooted : Bool) (acc : List Text) (n : Nat) (ps : List Text) :
    resolveParts rooted acc (List.replicate n [] ++ ps) = resolveParts rooted acc ps := by
  induction n with
  | zero => rfl
  | succ n ih => simpa [List.replicate_succ, resolveParts] using ih

theorem resolveParts_name {n : Text} (h : isName n = true) (acc ps : List Text) :
    resolveParts rooted acc (n :: ps) = resolveParts rooted (n :: acc) ps := by
  obtain ⟨hne, -, hdot, hdots⟩ := isName_iff.mp h
  rw [resolveParts.eq_def]
  simp [hne, hdot, hdots]

theorem resolveParts_names (h : ∀ n ∈ names, isName n = true) (acc ps : List Text) :
    resolveParts rooted acc (names ++ ps) = resolveParts rooted (names.reverse ++ acc) ps := by
  induction names generalizing acc with
  | nil => rfl
  | cons n names ih =>
      rw [List.cons_append, resolveParts_name (h n (List.mem_cons_self ..)),
        ih (fun m hm => h m (List.mem_cons_of_mem _ hm)), List.reverse_cons, List.append_assoc,
        List.singleton_append]

theorem resolveParts_of_named (h : ∀ n ∈ names, isName n = true) (acc : List Text) :
    resolveParts rooted acc names = names.reverse ++ acc := by
  rw [← List.append_nil names, resolveParts_names h, resolveParts, List.append_nil]

theorem isName_resolveParts (hacc : ∀ n ∈ acc, isName n = true) (hps : ∀ n ∈ ps, ch '/' ∉ n) :
    ∀ n ∈ resolveParts true acc ps, isName n = true := by
  induction ps generalizing acc with
  | nil => exact hacc
  | cons p ps ih =>
      have hrest : ∀ n ∈ ps, ch '/' ∉ n := fun n hn => hps n (List.mem_cons_of_mem _ hn)
      rw [resolveParts.eq_def]
      simp only
      split
      · exact ih hacc hrest
      · rename_i hkept
        simp only [Bool.or_eq_true, List.isEmpty_iff, beq_iff_eq, not_or] at hkept
        split
        · rename_i hdots
          cases acc with
          | nil => exact ih (by simp) hrest
          | cons q qs =>
              have hq := isName_iff.mp (hacc q (List.mem_cons_self ..))
              have hqs : ∀ n ∈ qs, isName n = true := fun n hn => hacc n (List.mem_cons_of_mem _ hn)
              simp only [beq_iff_eq, hq.2.2.2, if_false]
              exact ih hqs hrest
        · rename_i hdots
          have hp : isName p = true :=
            isName_iff.mpr ⟨hkept.1, hps p (List.mem_cons_self ..), hkept.2, by simpa using hdots⟩
          exact ih (List.forall_mem_cons.mpr ⟨hp, hacc⟩) hrest

end Resolution

section Normal

variable {n : Nat} {names more : List Text} {current p rel : Text}

def rootedAt (n : Nat) (names : List Text) : Text := List.replicate n (ch '/') ++ slashed names

structure Rooted (n : Nat) (names : List Text) : Prop where
  slashes : n = 1 ∨ n = 2
  named : ∀ x ∈ names, isName x = true

theorem Rooted.above (h : Rooted n (names ++ more)) : Rooted n names :=
  ⟨h.slashes, fun x hx => h.named x (List.mem_append_left _ hx)⟩

theorem Rooted.below (h : Rooted n names) (hmore : ∀ x ∈ more, isName x = true) : Rooted n (names ++ more) :=
  ⟨h.slashes, List.forall_mem_append.mpr ⟨h.named, hmore⟩⟩

theorem slash_not_mem_of_named (h : ∀ x ∈ names, isName x = true) : ∀ x ∈ names, ch '/' ∉ x :=
  fun x hx => (isName_iff.mp (h x hx)).2.1

theorem head?_slashed_cons {m : Text} (hne : m ≠ []) (hm : ch '/' ∉ m) (names : List Text) (t : Text) :
    (slashed (m :: names) ++ t).head? ≠ some (ch '/') := by
  obtain ⟨c, m, rfl⟩ := List.exists_cons_of_ne_nil hne
  have hc : c ≠ '/' := fun heq => hm (heq ▸ List.mem_cons_self ..)
  cases names with
  | nil => simpa using hc
  | cons y names =>
      rw [slashed_cons _ (List.cons_ne_nil _ _)]
      simpa using hc

theorem head?_slashed_ne_slash (hne : names ≠ []) (h : ∀ x ∈ names, isName x = true) (t : Text) :
    (slashed names ++ t).head? ≠ some (ch '/') := by
  obtain ⟨x, names, rfl⟩ := List.exists_cons_of_ne_nil hne
  obtain ⟨hx, hslash, -⟩ := isName_iff.mp (h x (List.mem_cons_self ..))
  exact head?_slashed_cons hx hslash names t

theorem slashed_ne_nil (hne : names ≠ []) (h : ∀ x ∈ names, isName x = true) : slashed names ≠ [] := by
  obtain ⟨x, names, rfl⟩ := List.exists_cons_of_ne_nil hne
  have hx := (isName_iff.mp (h x (List.mem_cons_self ..))).1
  cases names with
  | nil => simpa using hx
  | cons y names =>
      rw [slashed_cons _ (List.cons_ne_nil _ _)]
      simp

theorem getLast?_slashed_ne_slash (h : ∀ x ∈ names, isName x = true) :
    (slashed names).getLast? ≠ some (ch '/') := by
  rcases List.eq_nil_or_concat names with rfl | ⟨init, x, hconcat⟩
  · simp
  · rw [List.concat_eq_append] at hconcat
    subst hconcat
    obtain ⟨hx, hslash, -⟩ := isName_iff.mp (h x (by simp))
    have hlast : x.getLast? ≠ some (ch '/') := fun hl => hslash (List.mem_of_getLast? hl)
    by_cases hinit : init = []
    · simpa [hinit] using hlast
    · rw [slashed_append hinit (List.cons_ne_nil _ _), slashed_singleton]
      rw [List.getLast?_append_cons, List.getLast?_cons_of_ne_nil hx]
      exact hlast

theorem leadingSlashes_replicate {t : Text} (hn : n = 1 ∨ n = 2) (ht : t.head? ≠ some (ch '/')) :
    leadingSlashes (List.replicate n (ch '/') ++ t) = n := by
  have hrun : (List.replicate n (ch '/') ++ t).takeWhile isSlash = List.replicate n (ch '/') := by
    rw [List.takeWhile_append_of_pos (by simp [isSlash])]
    cases t with
    | nil => simp
    | cons c t =>
        have hc : c ≠ '/' := by simpa using ht
        simp [isSlash, hc]
  rw [leadingSlashes, hrun, List.length_replicate]
  rcases hn with rfl | rfl <;> rfl

theorem parts_replicate (n : Nat) (t : Text) :
    parts (List.replicate n (ch '/') ++ t) = List.replicate n [] ++ parts t := by
  induction n with
  | zero => rfl
  | succ n ih => rw [List.replicate_succ, List.cons_append, parts_slash_cons, ih]; rfl

theorem isAbsolute_rootedAt (hn : n = 1 ∨ n = 2) (t : Text) :
    isAbsolute (List.replicate n (ch '/') ++ t) = true := by
  rcases hn with rfl | rfl <;> rfl

theorem normalize_of_isAbsolute (h : isAbsolute p = true) :
    normalize p = rootedAt (leadingSlashes p) (resolveParts true [] (parts p)).reverse ∧
      (leadingSlashes p = 1 ∨ leadingSlashes p = 2) := by
  obtain ⟨t, rfl⟩ : ∃ t, p = ch '/' :: t := by
    rw [isAbsolute, beq_iff_eq] at h
    exact List.head?_eq_some_iff.mp h
  have hslashes : leadingSlashes (ch '/' :: t) = 1 ∨ leadingSlashes (ch '/' :: t) = 2 := by
    rw [leadingSlashes, List.takeWhile_cons_of_pos (by decide), List.length_cons]
    split <;> omega
  refine ⟨?_, hslashes⟩
  have hne : (leadingSlashes (ch '/' :: t) != 0) = true := by
    rcases hslashes with h | h <;> rw [h] <;> rfl
  rw [normalize, hne, if_neg]
  · rfl
  · rcases hslashes with h | h <;> rw [h] <;> simp [List.replicate_succ]

theorem exists_rooted_absolute (h : isAbsolute current = true) (p : Text) :
    ∃ n names, Rooted n names ∧ absolute current p = rootedAt n names := by
  have hjoined : isAbsolute (if isAbsolute p then p else join current p) = true := by
    split
    · assumption
    · rw [isAbsolute, beq_iff_eq] at h
      obtain ⟨t, rfl⟩ := List.head?_eq_some_iff.mp h
      unfold join
      split
      · rename_i hp _
        simp_all [isAbsolute]
      · split <;> rfl
  obtain ⟨hnormal, hslashes⟩ := normalize_of_isAbsolute hjoined
  refine ⟨_, _, ⟨hslashes, fun x hx => ?_⟩, hnormal⟩
  exact isName_resolveParts (by simp) (fun y hy => slash_not_mem_of_mem_parts hy) x (List.mem_reverse.mp hx)

theorem getLast?_rootedAt (h : Rooted n names) (hne : names ≠ []) : (rootedAt n names).getLast? ≠ some (ch '/') := by
  rw [rootedAt, List.getLast?_append_of_ne_nil _ (slashed_ne_nil hne h.named)]
  exact getLast?_slashed_ne_slash h.named

theorem join_rootedAt (h : Rooted n names) (hrel : rel.head? ≠ some (ch '/')) :
    join (rootedAt n names) rel =
      List.replicate n (ch '/') ++ (if names = [] then rel else slashed names ++ ch '/' :: rel) := by
  have hhead : (rel.head? == some (ch '/')) = false := by simpa using hrel
  obtain ⟨m, rfl⟩ : ∃ m, n = m + 1 := by
    rcases h.slashes with rfl | rfl <;> exact ⟨_, rfl⟩
  by_cases hnames : names = []
  · subst hnames
    have hlast : (rootedAt (m + 1) []).getLast? = some (ch '/') := by
      simp [rootedAt, List.replicate_succ']
    rw [join, hhead, hlast]
    simp [rootedAt]
  · have hlast : (rootedAt (m + 1) names).getLast? ≠ some (ch '/') := getLast?_rootedAt h hnames
    have hempty : (rootedAt (m + 1) names).isEmpty = false := by
      simp [rootedAt, List.replicate_succ]
    rw [join, hhead, hempty, beq_eq_false_iff_ne.mpr hlast]
    simp [hnames, rootedAt]

theorem join_slashed (h : Rooted n names) (hne : more ≠ []) (hmore : ∀ x ∈ more, isName x = true) :
    join (rootedAt n names) (slashed more) = rootedAt n (names ++ more) := by
  have hhead := head?_slashed_ne_slash hne hmore []
  rw [List.append_nil] at hhead
  rw [join_rootedAt h hhead, rootedAt]
  split
  · rename_i hnames
    rw [hnames, List.nil_append]
  · rename_i hnames
    rw [slashed_append hnames hne]

theorem absolute_join (h : Rooted n names) (current : Text) (hrel : rel.head? ≠ some (ch '/')) :
    absolute current (join (rootedAt n names) rel) =
      rootedAt n (resolveParts true names.reverse (parts rel)).reverse := by
  rw [absolute, join_rootedAt h hrel, isAbsolute_rootedAt h.slashes, if_pos rfl]
  have hrest : (if names = [] then rel else slashed names ++ ch '/' :: rel).head? ≠ some (ch '/') := by
    split
    · exact hrel
    · rename_i hnames
      exact head?_slashed_ne_slash hnames h.named _
  have hparts : parts (if names = [] then rel else slashed names ++ ch '/' :: rel) = names ++ parts rel := by
    split
    · rename_i hnames
      rw [hnames, List.nil_append]
    · rename_i hnames
      rw [parts_append_slash, parts_slashed hnames (slash_not_mem_of_named h.named)]
  rw [(normalize_of_isAbsolute (isAbsolute_rootedAt h.slashes _)).1, leadingSlashes_replicate h.slashes hrest,
    parts_replicate, resolveParts_empties, hparts, resolveParts_names h.named, List.append_nil]

theorem rootedAt_injective {xs ys : List Text} (hx : ∀ x ∈ xs, isName x = true)
    (hy : ∀ y ∈ ys, isName y = true) (h : rootedAt n xs = rootedAt n ys) : xs = ys := by
  have hslashed : slashed xs = slashed ys := List.append_cancel_left h
  by_cases hxs : xs = []
  · by_contra hne
    rw [hxs] at hslashed hne
    exact slashed_ne_nil (Ne.symm hne) hy hslashed.symm
  · by_cases hys : ys = []
    · rw [hys] at hslashed
      exact absurd hslashed (slashed_ne_nil hxs hx)
    · rw [← parts_slashed hxs (slash_not_mem_of_named hx), hslashed,
        parts_slashed hys (slash_not_mem_of_named hy)]

theorem baseName_rootedAt (h : Rooted n names) : baseName (rootedAt n names) = names.getLast?.getD [] := by
  obtain ⟨m, rfl⟩ : ∃ m, n = m + 1 := by
    rcases h.slashes with rfl | rfl <;> exact ⟨_, rfl⟩
  rcases List.eq_nil_or_concat names with rfl | ⟨init, x, hconcat⟩
  · rw [rootedAt, slashed_nil, List.append_nil, List.replicate_succ',
      baseName_append_slash _ List.not_mem_nil]
    rfl
  · rw [List.concat_eq_append] at hconcat
    subst hconcat
    have hx : ch '/' ∉ x := slash_not_mem_of_named h.named x (by simp)
    rw [List.getLast?_concat, Option.getD_some]
    by_cases hinit : init = []
    · subst hinit
      rw [rootedAt, List.nil_append, slashed_singleton, List.replicate_succ',
        List.append_assoc, List.singleton_append, baseName_append_slash _ hx]
    · rw [rootedAt, slashed_append hinit (List.cons_ne_nil _ _),
        slashed_singleton, ← List.append_assoc, baseName_append_slash _ hx]

theorem dirName_append {a l : Text} (hbase : baseName (a ++ l) = l) :
    dirName (a ++ l) = if a.all isSlash then a else (a.reverse.dropWhile isSlash).reverse := by
  have hhead : (a ++ l).take ((a ++ l).length - (baseName (a ++ l)).length) = a := by simp [hbase]
  simp only [dirName, hhead]

theorem dirName_rootedAt {l : Text} (h : Rooted n (names ++ [l])) :
    dirName (rootedAt n (names ++ [l])) = rootedAt n names := by
  have hbase : baseName (rootedAt n (names ++ [l])) = l := by
    rw [baseName_rootedAt h, List.getLast?_concat, Option.getD_some]
  by_cases hnames : names = []
  · subst hnames
    rw [List.nil_append, rootedAt, slashed_singleton] at hbase ⊢
    rw [dirName_append hbase, if_pos (by simp [isSlash]), rootedAt, slashed_nil, List.append_nil]
  · have hpath : rootedAt n (names ++ [l]) = (rootedAt n names ++ [ch '/']) ++ l := by
      simp [rootedAt, slashed_append hnames]
    obtain ⟨init, c, hinit⟩ : ∃ init c, rootedAt n names = init ++ [c] := by
      rcases List.eq_nil_or_concat (rootedAt n names) with heq | ⟨init, c, heq⟩
      · simp [rootedAt, slashed_ne_nil hnames h.above.named] at heq
      · exact ⟨init, c, by rw [heq, List.concat_eq_append]⟩
    have hc : isSlash c = false := by
      have hlast := getLast?_rootedAt h.above hnames
      rw [hinit, List.getLast?_concat] at hlast
      simpa [isSlash] using hlast
    rw [hpath] at hbase ⊢
    rw [dirName_append hbase, hinit, if_neg (by simp [hc]), List.reverse_append, List.reverse_append,
      List.reverse_singleton, List.reverse_singleton, List.singleton_append, List.singleton_append,
      List.dropWhile_cons_of_pos (by decide), List.dropWhile_cons_of_neg (by simp [hc])]
    simp

theorem parts_rootedAt (h : Rooted n names) : (parts (rootedAt n names)).filter (!·.isEmpty) = names := by
  have hkept : names.filter (!·.isEmpty) = names := by
    refine List.filter_eq_self.mpr fun x hx => ?_
    simpa using (isName_iff.mp (h.named x hx)).1
  rw [rootedAt, parts_replicate, List.filter_append]
  by_cases hnames : names = []
  · subst hnames
    simp [parts, pieces]
  · rw [parts_slashed hnames (slash_not_mem_of_named h.named), hkept]
    simp

end Normal

end CodeCompaction.Path
