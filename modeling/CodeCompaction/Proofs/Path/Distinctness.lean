import CodeCompaction.Proofs.Path.Output

namespace CodeCompaction.Path

open CodeCompaction.Text

section Join

variable {a current p rel : Text} {rooted : Bool} {names : List Text}

def gap (a : Text) : Text := if a.isEmpty || a.getLast? == some (ch '/') then [] else [ch '/']

theorem join_of_absolute (a : Text) (h : rel.head? = some (ch '/')) : join a rel = rel := by
  rw [join, h]
  rfl

theorem join_of_relative (a : Text) (h : rel.head? ≠ some (ch '/')) : join a rel = a ++ (gap a ++ rel) := by
  rw [join, if_neg (by simpa using h), gap]
  split <;> rfl

theorem gap_append (a : Text) {b : Text} (hb : b ≠ []) : gap (a ++ b) = gap b := by
  rw [gap, gap, List.getLast?_append_of_ne_nil a hb]
  simp [hb]

theorem gap_append_gap (a : Text) : gap (a ++ gap a) = [] := by
  cases hgap : gap a with
  | nil => rwa [List.append_nil]
  | cons c t =>
      have hslash : gap a = [ch '/'] := by
        rw [gap] at hgap ⊢
        split at hgap
        · simp at hgap
        · simp_all
      rw [← hgap, hslash, gap_append a (by simp)]
      rfl

theorem head?_append_of_relative {b : Text} (hb : b ≠ []) (h : b.head? ≠ some (ch '/')) (t : Text) :
    (b ++ t).head? ≠ some (ch '/') := by
  obtain ⟨c, b, rfl⟩ := List.exists_cons_of_ne_nil hb
  exact h

theorem join_assoc (a b c : Text) : join (join a b) c = join a (join b c) := by
  by_cases hc : c.head? = some (ch '/')
  · rw [join_of_absolute _ hc, join_of_absolute _ hc, join_of_absolute _ hc]
  rw [join_of_relative _ hc, join_of_relative b hc]
  by_cases hb : b.head? = some (ch '/')
  · obtain ⟨b, rfl⟩ := List.head?_eq_some_iff.mp hb
    rw [join_of_absolute a hb, join_of_absolute a (by simp)]
  · rw [join_of_relative a hb]
    by_cases hnil : b = []
    · subst hnil
      have hgap : (gap [] ++ c).head? ≠ some (ch '/') := by simpa [gap] using hc
      rw [List.append_nil, gap_append_gap, List.nil_append, List.nil_append, join_of_relative a hgap]
      simp [gap]
    · rw [join_of_relative a (head?_append_of_relative hnil hb _), ← List.append_assoc a,
        gap_append _ hnil]
      simp

theorem absolute_eq_normalize_join (current p : Text) : absolute current p = normalize (join current p) := by
  rw [absolute]
  split
  · rename_i h
    rw [join_of_absolute current (by simpa [isAbsolute] using h)]
  · rfl

theorem isAbsolute_join (h : isAbsolute a = true) (p : Text) : isAbsolute (join a p) = true := by
  rw [isAbsolute, beq_iff_eq] at h ⊢
  by_cases hp : p.head? = some (ch '/')
  · rwa [join_of_absolute a hp]
  · obtain ⟨t, rfl⟩ := List.head?_eq_some_iff.mp h
    rw [join_of_relative _ hp]
    rfl

theorem resolveParts_append (rooted : Bool) (acc ps qs : List Text) :
    resolveParts rooted acc (ps ++ qs) = resolveParts rooted (resolveParts rooted acc ps) qs := by
  fun_induction resolveParts rooted acc ps with
  | case1 => rfl
  | _ => rw [List.cons_append, resolveParts.eq_def]; simp_all

theorem rooted_of_isAbsolute (h : isAbsolute p = true) :
    Rooted (leadingSlashes p) (resolveParts true [] (parts p)).reverse := by
  refine ⟨(normalize_of_isAbsolute h).2, fun x hx => ?_⟩
  exact isName_resolveParts (by simp) (fun y hy => slash_not_mem_of_mem_parts hy) x (List.mem_reverse.mp hx)

theorem leadingSlashes_join (p : Text) (hrel : rel.head? ≠ some (ch '/')) :
    leadingSlashes (join p rel) = leadingSlashes p := by
  have hrun : (join p rel).takeWhile isSlash = p.takeWhile isSlash := by
    rw [join_of_relative p hrel, List.takeWhile_append]
    split
    · rename_i hall
      have hslashes : p.takeWhile isSlash = p := (List.takeWhile_prefix _).eq_of_length hall
      have hgap : gap p = [] := by
        rw [gap, if_pos]
        rcases List.eq_nil_or_concat' p with rfl | ⟨t, c, rfl⟩
        · rfl
        · have hc : c ∈ (t ++ [c]).takeWhile isSlash := by
            rw [hslashes]
            simp
          simpa [isSlash] using List.mem_takeWhile_imp hc
      have hstop : rel.takeWhile isSlash = [] := by
        cases rel with
        | nil => rfl
        | cons c t =>
            refine List.takeWhile_cons_of_neg ?_
            simpa [isSlash] using hrel
      rw [hgap, List.nil_append, hstop, List.append_nil, hslashes]
    · rfl
  rw [leadingSlashes, leadingSlashes, hrun]

theorem resolveParts_join (acc : List Text) (p : Text) (hrel : rel.head? ≠ some (ch '/')) :
    resolveParts rooted acc (parts (join p rel)) =
      resolveParts rooted (resolveParts rooted acc (parts p)) (parts rel) := by
  rw [join, if_neg (by simpa using hrel)]
  split
  · rename_i hend
    rw [Bool.or_eq_true, List.isEmpty_iff, beq_iff_eq] at hend
    rcases hend with rfl | hlast
    · rfl
    · obtain ⟨d, rfl⟩ := List.getLast?_eq_some_iff.mp hlast
      rw [List.append_assoc, List.singleton_append, parts_append_slash, parts_append_slash, resolveParts_append,
        resolveParts_append]
      rfl
  · rw [parts_append_slash, resolveParts_append]

theorem exists_rooted_join (h : isAbsolute p = true) :
    ∃ n up, Rooted n up ∧ normalize p = rootedAt n up ∧ ∀ names, names ≠ [] →
      (∀ x ∈ names, isName x = true) → normalize (join p (slashed names)) = rootedAt n (up ++ names) := by
  refine ⟨_, _, rooted_of_isAbsolute h, (normalize_of_isAbsolute h).1, fun names hne hnames => ?_⟩
  have hhead := head?_slashed_ne_slash hne hnames []
  rw [List.append_nil] at hhead
  rw [(normalize_of_isAbsolute (isAbsolute_join h _)).1, leadingSlashes_join p hhead, resolveParts_join _ _ hhead,
    parts_slashed hne (slash_not_mem_of_named hnames), resolveParts_of_named hnames, List.reverse_append,
    List.reverse_reverse]

theorem exists_rooted_below (hcurrent : isAbsolute current = true) (dir : Text) :
    ∃ n up, Rooted n up ∧ absolute current dir = rootedAt n up ∧ ∀ names, names ≠ [] →
      (∀ x ∈ names, isName x = true) →
        absolute current (join dir (slashed names)) = rootedAt n (up ++ names) := by
  obtain ⟨n, up, hrooted, hdir, hbelow⟩ := exists_rooted_join (isAbsolute_join hcurrent dir)
  refine ⟨n, up, hrooted, (absolute_eq_normalize_join current dir).trans hdir, fun names hne hnames => ?_⟩
  rw [absolute_eq_normalize_join, ← join_assoc, hbelow names hne hnames]

end Join

section Extension

variable {k l s v w marker : Text}

theorem eq_append_afterLast {sep : CodePoint} {t : Text} (h : sep ∈ t) :
    ∃ a, t = a ++ sep :: afterLast sep t ∧ sep ∉ afterLast sep t := by
  have hcut := List.takeWhile_append_dropWhile (p := (· != sep)) (l := t.reverse)
  have hfree : sep ∉ t.reverse.takeWhile (· != sep) := fun hm => by simpa using List.mem_takeWhile_imp hm
  cases hrest : t.reverse.dropWhile (· != sep) with
  | nil =>
      rw [hrest, List.append_nil] at hcut
      rw [hcut] at hfree
      exact absurd (List.mem_reverse.mpr h) hfree
  | cons c r =>
      have hc : c = sep := by
        have hhead := List.head_dropWhile_not (· != sep) (l := t.reverse) (by simp [hrest])
        simpa [hrest] using hhead
      subst hc
      refine ⟨r.reverse, ?_, by simpa [afterLast] using hfree⟩
      rw [hrest] at hcut
      simpa [afterLast] using (congrArg List.reverse hcut).symm

theorem splitExtension_cases (hl : ch '/' ∉ l) :
    splitExtension l = (l, []) ∧ ch '.' ∉ l.dropWhile (· == ch '.') ∨
      ∃ s v, splitExtension l = (s, ch '.' :: v) ∧ ch '.' ∉ v ∧ isAllDots s = false := by
  have hlead := List.takeWhile_append_dropWhile (p := (· == ch '.')) (l := l)
  rw [splitExtension, baseName_of_no_slash hl, extensionLength]
  by_cases hdot : ch '.' ∈ l.dropWhile (· == ch '.')
  · right
    obtain ⟨a, ha, hfree⟩ := eq_append_afterLast hdot
    rw [if_pos (by simpa using hdot)]
    generalize afterLast '.' (l.dropWhile (· == '.')) = v at ha hfree
    have hink : ∃ c ∈ a, c ≠ '.' := by
      cases a with
      | nil =>
          have hhead := List.head_dropWhile_not (· == ch '.') (l := l) (by simp [ha])
          simp [ha] at hhead
      | cons c a =>
          have hhead := List.head_dropWhile_not (· == ch '.') (l := l) (by simp [ha])
          exact ⟨c, List.mem_cons_self, by simpa [ha] using hhead⟩
    obtain ⟨c, hc, hne⟩ := hink
    have hsplit : l = (l.takeWhile (· == ch '.') ++ a) ++ ch '.' :: v := by rw [List.append_assoc, ← ha, hlead]
    refine ⟨l.takeWhile (· == ch '.') ++ a, v, ?_, hfree, ?_⟩
    · have hlen := congrArg List.length hsplit
      rw [List.length_append, List.length_cons] at hlen
      have hcut : l.length - (v.length + 1) = (l.takeWhile (· == ch '.') ++ a).length := by omega
      rw [hcut, List.splitAt_eq]
      generalize l.takeWhile (· == ch '.') ++ a = s at hsplit
      rw [hsplit, List.take_left, List.drop_left]
    · rw [isAllDots, List.all_eq_false]
      exact ⟨c, List.mem_append_right _ hc, by simpa using hne⟩
  · left
    rw [if_neg (by simpa using hdot)]
    exact ⟨by simp, hdot⟩

theorem append_ne_of_bare (hk : ch '.' ∉ k.dropWhile (· == ch '.')) (hs : isAllDots s = false) :
    k ++ marker ≠ s ++ marker ++ ch '.' :: v := by
  intro heq
  rw [List.append_assoc] at heq
  have hlen := congrArg List.length heq
  simp only [List.length_append, List.length_cons] at hlen
  obtain ⟨w, rfl⟩ : s <+: k :=
    List.prefix_of_prefix_length_le (heq ▸ List.prefix_append s _) (List.prefix_append k marker) (by omega)
  rw [List.append_assoc, List.append_cancel_left_eq] at heq
  have hcount := congrArg (List.count (ch '.')) heq
  rw [List.count_append, List.count_append, List.count_cons_self] at hcount
  have hdot : ch '.' ∈ w := List.count_pos_iff.mp (by omega)
  refine hk ?_
  rw [List.dropWhile_append]
  split
  · rename_i hempty
    rw [List.isEmpty_iff, List.dropWhile_eq_nil_iff] at hempty
    rw [isAllDots, List.all_eq_false] at hs
    obtain ⟨c, hc, hne⟩ := hs
    exact absurd (hempty c hc) hne
  · exact List.mem_append_right _ hdot

theorem append_dot_inj {t : Text} (hv : ch '.' ∉ v) (hw : ch '.' ∉ w) (h : s ++ ch '.' :: v = t ++ ch '.' :: w) :
    s = t ∧ v = w := by
  have hlast : v = w := by rw [← afterLast_append s hv, h, afterLast_append t hw]
  subst hlast
  exact ⟨List.append_cancel_right h, rfl⟩

theorem marked_injective (hk : ch '/' ∉ k) (hl : ch '/' ∉ l) (h : marked marker k = marked marker l) : k = l := by
  have hjoin (t : Text) : (splitExtension t).1 ++ (splitExtension t).2 = t := by
    rw [splitExtension, List.splitAt_eq, List.take_append_drop]
  rw [marked, marked] at h
  rcases splitExtension_cases hk with ⟨hk, hbare⟩ | ⟨s, v, hk, hv, hs⟩ <;>
    rcases splitExtension_cases hl with ⟨hl, hbare'⟩ | ⟨t, w, hl, hw, ht⟩ <;>
    rw [hk, hl] at h
  · simpa using h
  · exact absurd (by simpa using h) (append_ne_of_bare hbare ht)
  · exact absurd (by simpa using h.symm) (append_ne_of_bare hbare' hs)
  · obtain ⟨hfront, rfl⟩ := append_dot_inj hv hw h
    rw [← hjoin k, ← hjoin l, hk, hl, List.append_cancel_right hfront]

theorem isName_marked_of_isName (hl : isName l = true) (hmarker : ch '/' ∉ marker) :
    isName (marked marker l) = true := by
  obtain ⟨hne, hslash, hdot, hdots⟩ := isName_iff.mp hl
  cases hink : isAllDots l with
  | false => exact isName_marked hslash hmarker hink
  | true =>
      have hall : ∀ c ∈ l, c = '.' := by simpa [isAllDots] using hink
      have hthree : 3 ≤ l.length := by
        rcases l with _ | ⟨a, _ | ⟨b, _ | ⟨c, l⟩⟩⟩
        · exact absurd rfl hne
        · exact absurd (by rw [hall a (by simp)]) hdot
        · exact absurd (by rw [hall a (by simp), hall b (by simp)]) hdots
        · simp
      have hlen := (marked_perm marker l).length_eq
      rw [List.length_append] at hlen
      have hfree : ch '/' ∉ marked marker l := by
        rw [(marked_perm marker l).mem_iff, List.mem_append]
        exact not_or.mpr ⟨hslash, hmarker⟩
      refine isName_iff.mpr ⟨?_, hfree, ?_, ?_⟩ <;>
        · intro heq
          rw [heq] at hlen
          simp at hlen
          omega

end Extension

/-- A path that leads from a directory to what lies in it: names between single slashes. A backslash in front is
taken for a slash. -/
structure Inner (r : Text) : Prop where
  named : ∀ n ∈ parts r, isName n = true
  plain : r.head? ≠ some (ch '\\')

section Inner

variable {current dir marker r : Text}

theorem slashed_parts (p : Text) : slashed (parts p) = p := by
  induction p with
  | nil => rfl
  | cons c p ih =>
      have hne : parts p ≠ [] := pieces_ne_nil _ p
      by_cases hc : c = '/'
      · rw [hc, parts_slash_cons, slashed_cons _ hne, ih, List.nil_append]
      · obtain ⟨q, qs, hp⟩ := List.exists_cons_of_ne_nil hne
        have hcut : parts (c :: p) = (c :: q) :: qs := by
          rw [parts] at hp
          rw [parts, pieces, if_neg (by simpa [isSlash] using hc), hp]
        rw [hp] at ih
        rw [hcut, ← ih]
        cases qs with
        | nil => rw [slashed_singleton, slashed_singleton]
        | cons q' qs =>
            rw [slashed_cons _ (List.cons_ne_nil q' qs), slashed_cons _ (List.cons_ne_nil q' qs), List.cons_append]

theorem Inner.exists_names (h : Inner r) : ∃ init l, r = slashed (init ++ [l]) ∧
    (∀ x ∈ init, isName x = true) ∧ isName l = true ∧ r.dropWhile isAnySlash = r := by
  have hne : parts r ≠ [] := pieces_ne_nil _ r
  have hr := slashed_parts r
  have hnamed := h.named
  rcases List.eq_nil_or_concat' (parts r) with hnil | ⟨init, l, hconcat⟩
  · exact absurd hnil hne
  rw [hconcat] at hr hnamed
  rw [List.forall_mem_append] at hnamed
  refine ⟨init, l, hr.symm, hnamed.1, hnamed.2 l (by simp), ?_⟩
  have hhead := head?_slashed_ne_slash hne h.named []
  rw [List.append_nil, slashed_parts] at hhead
  have hplain := h.plain
  cases r with
  | nil => rfl
  | cons c t =>
      refine List.dropWhile_cons_of_neg ?_
      simpa [isAnySlash] using And.intro hhead hplain

theorem Inner.exists_output {n : Nat} {up : List Text} (h : Inner r) (hmarker : ch '/' ∉ marker)
    (hbelow : ∀ names, names ≠ [] → (∀ x ∈ names, isName x = true) →
      absolute current (join dir (slashed names)) = rootedAt n (up ++ names)) :
    ∃ init l, r = slashed (init ++ [l]) ∧ ch '/' ∉ l ∧ (∀ x ∈ init ++ [marked marker l], isName x = true) ∧
      output current dir r marker = rootedAt n (up ++ (init ++ [marked marker l])) := by
  obtain ⟨init, l, rfl, hinit, hl, hkept⟩ := h.exists_names
  have hslash : ch '/' ∉ l := (isName_iff.mp hl).2.1
  have hnames : ∀ x ∈ init ++ [marked marker l], isName x = true := by
    simpa [or_imp, forall_and] using And.intro hinit (isName_marked_of_isName hl hmarker)
  refine ⟨init, l, rfl, hslash, hnames, ?_⟩
  rw [output_eq, hkept, marked_slashed marker init hslash, hbelow _ (by simp) hnames]

end Inner

theorem outputs_distinct {current dir marker r r' : Text} (hcurrent : isAbsolute current = true)
    (hmarker : ch '/' ∉ marker) (hr : Inner r) (hr' : Inner r') (hne : r ≠ r') :
    output current dir r marker ≠ output current dir r' marker ∧
      Below (absolute current dir) (output current dir r marker) ∧
      Below (absolute current dir) (output current dir r' marker) := by
  obtain ⟨n, up, hrooted, hdir, hbelow⟩ := exists_rooted_below hcurrent dir
  obtain ⟨init, l, rfl, hl, hnames, hout⟩ := hr.exists_output hmarker hbelow
  obtain ⟨init', l', rfl, hl', hnames', hout'⟩ := hr'.exists_output hmarker hbelow
  have hall := (hrooted.below hnames).named
  have hall' := (hrooted.below hnames').named
  rw [hout, hout', hdir]
  refine ⟨fun heq => ?_, ?_, ?_⟩
  · have hparts := List.append_cancel_left (rootedAt_injective hall hall' heq)
    obtain ⟨rfl, hlast⟩ := List.append_inj' hparts rfl
    rw [marked_injective hl hl' (List.singleton_inj.mp hlast)] at hne
    exact hne rfl
  · exact (below_rootedAt_iff hrooted hall).mpr ⟨_, by simp, rfl⟩
  · exact (below_rootedAt_iff hrooted hall').mpr ⟨_, by simp, rfl⟩

theorem outputs_distinct_of_marked_name :
    output "/w".toText "//o/p/..".toText "s/.a".toText ".a".toText = "//o/s/.a.a".toText ∧
      output "/w".toText "//o/p/..".toText "s/.a.a".toText ".a".toText = "//o/s/.a.a.a".toText ∧
      Below (absolute "/w".toText "//o/p/..".toText) "//o/s/.a.a".toText ∧
      Below (absolute "/w".toText "//o/p/..".toText) "//o/s/.a.a.a".toText := by
  have hshort : Inner "s/.a".toText := ⟨by decide, by decide⟩
  have hlong : Inner "s/.a.a".toText := ⟨by decide, by decide⟩
  have hout : output "/w".toText "//o/p/..".toText "s/.a".toText ".a".toText = "//o/s/.a.a".toText := by decide
  have hout' : output "/w".toText "//o/p/..".toText "s/.a.a".toText ".a".toText = "//o/s/.a.a.a".toText := by
    decide
  rw [← hout, ← hout']
  exact ⟨rfl, rfl, (outputs_distinct (by decide) (by decide) hshort hlong (by decide)).2⟩

end CodeCompaction.Path
