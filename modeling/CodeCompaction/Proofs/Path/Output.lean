import Mathlib.Data.List.TakeWhile
import CodeCompaction.Path.Expand
import CodeCompaction.Proofs.Path.Normal
import CodeCompaction.Proofs.Text.Blanks

namespace CodeCompaction.Path

open CodeCompaction.Text

def isAllDots (n : Text) : Bool := n.all (· == '.')

def marked (marker p : Text) : Text := (splitExtension p).1 ++ marker ++ (splitExtension p).2

def Below (dir p : Text) : Prop :=
  ∃ names : List Text, names ≠ [] ∧ (∀ n ∈ names, isName n = true) ∧ p = join dir (slashed names)

/-- Whether a name leads up from the directory first, and then not back into it. -/
def climbs (dir name : Text) : Bool :=
  let ps := parts (name.dropWhile isAnySlash)
  ps.head? == some [ch '.', '.'] && !(baseName dir).isEmpty &&
    !(ps.tail.head? == some (baseName dir) && 1 < ps.tail.length)

section Marked

variable {marker a l : Text}

theorem length_afterLast_lt {sep : CodePoint} {t : Text} (h : sep ∈ t) : (afterLast sep t).length < t.length := by
  have hle : (t.reverse.takeWhile (· != sep)).length ≤ t.reverse.length :=
    (List.takeWhile_prefix _).length_le
  rw [afterLast, List.length_reverse, ← (List.length_reverse : t.reverse.length = t.length)]
  refine Nat.lt_of_le_of_ne hle (fun hlen => ?_)
  have hall := (List.takeWhile_prefix (· != sep)).eq_of_length hlen
  rw [← List.mem_reverse, ← hall] at h
  exact absurd (List.mem_takeWhile_imp h) (by simp)

theorem extensionLength_le (n : Text) : extensionLength n ≤ n.length := by
  rw [extensionLength]
  split
  · rename_i hdot
    exact Nat.lt_of_lt_of_le (length_afterLast_lt (by simpa using hdot)) (List.dropWhile_suffix _).length_le
  · exact Nat.zero_le _

theorem marked_nil (p : Text) : marked [] p = p := by
  rw [marked, splitExtension, List.splitAt_eq, List.append_nil, List.take_append_drop]

theorem marked_append_slash (marker a : Text) (hl : ch '/' ∉ l) :
    marked marker (a ++ ch '/' :: l) = a ++ ch '/' :: marked marker l := by
  have he := extensionLength_le l
  have hlen : (a ++ [ch '/'] ++ l).length - extensionLength l =
      (a ++ [ch '/']).length + (l.length - extensionLength l) := by
    rw [List.length_append]
    omega
  have hfront : a ++ ch '/' :: l = a ++ [ch '/'] ++ l := by simp
  rw [marked, marked, splitExtension, splitExtension, baseName_append_slash a hl, baseName_of_no_slash hl,
    hfront, hlen, List.splitAt_eq, List.splitAt_eq, List.take_length_add_append,
    List.drop_length_add_append]
  simp

theorem marked_slashed (marker : Text) (names : List Text) (hl : ch '/' ∉ l) :
    marked marker (slashed (names ++ [l])) = slashed (names ++ [marked marker l]) := by
  by_cases hne : names = []
  · rw [hne, List.nil_append, List.nil_append, slashed_singleton, slashed_singleton]
  · rw [slashed_append hne (List.cons_ne_nil _ _), slashed_append hne (List.cons_ne_nil _ _),
      slashed_singleton, slashed_singleton, marked_append_slash _ _ hl]

theorem output_eq (current dir name marker : Text) : output current dir name marker =
    absolute current (join dir (marked marker (name.dropWhile isAnySlash))) := by
  rw [output]
  simp only
  split
  · rename_i hempty
    rw [List.isEmpty_iff.mp hempty, marked_nil]
  · rfl

theorem marked_perm (marker p : Text) : (marked marker p).Perm (p ++ marker) := by
  have hcut : (splitExtension p).1 ++ (splitExtension p).2 = p := by
    rw [splitExtension, List.splitAt_eq, List.take_append_drop]
  have hswap : (marked marker p).Perm ((splitExtension p).1 ++ ((splitExtension p).2 ++ marker)) := by
    rw [marked, List.append_assoc]
    exact List.perm_append_comm.append_left _
  rwa [← List.append_assoc, hcut] at hswap

theorem isName_marked (hl : ch '/' ∉ l) (hmarker : ch '/' ∉ marker) (hink : isAllDots l = false) :
    isName (marked marker l) = true := by
  obtain ⟨c, hc, hdot⟩ : ∃ c ∈ l, c ≠ '.' := by simpa [isAllDots] using hink
  have hkept : c ∈ marked marker l := (marked_perm marker l).mem_iff.mpr (List.mem_append_left _ hc)
  have hslash : ch '/' ∉ marked marker l := by
    rw [(marked_perm marker l).mem_iff, List.mem_append]
    exact not_or.mpr ⟨hl, hmarker⟩
  refine isName_iff.mpr ⟨List.ne_nil_of_mem hkept, hslash, ?_, ?_⟩ <;>
    · intro heq
      rw [heq] at hkept
      simp [hdot] at hkept

end Marked

section Dropped

variable {names : List Text} {l : Text}

theorem isAllDots_of_dropWhile (h : isAllDots (l.dropWhile isAnySlash) = false) : isAllDots l = false := by
  rw [isAllDots, List.all_eq_false] at h ⊢
  obtain ⟨c, hc, hdot⟩ := h
  exact ⟨c, (List.dropWhile_suffix _).subset hc, hdot⟩

theorem exists_dropWhile_slashed (hnames : ∀ x ∈ names, ch '/' ∉ x) (hl : ch '/' ∉ l)
    (hink : isAllDots (l.dropWhile isAnySlash) = false) :
    ∃ init k, (slashed (names ++ [l])).dropWhile isAnySlash = slashed (init ++ [k]) ∧
      ch '/' ∉ k ∧ isAllDots k = false ∧ (∀ x ∈ init, ch '/' ∉ x) ∧ (∀ x ∈ init.head?, x ≠ []) ∧
      (∀ x ∈ (init ++ [k]).tail, x ∈ names ++ [l]) := by
  induction names with
  | nil =>
      refine ⟨[], l.dropWhile isAnySlash, ?_, ?_, hink, by simp, by simp, by simp⟩
      · simp
      · exact fun hm => hl ((List.dropWhile_suffix _).subset hm)
  | cons n names ih =>
      have hn := hnames n (List.mem_cons_self ..)
      have hrest : ∀ x ∈ names, ch '/' ∉ x := fun x hx => hnames x (List.mem_cons_of_mem _ hx)
      rw [List.cons_append, slashed_cons n (by simp), List.dropWhile_append]
      split
      · obtain ⟨init, k, heq, hk, hdots, hinit, hhead, htail⟩ := ih hrest
        refine ⟨init, k, ?_, hk, hdots, hinit, hhead, fun x hx => List.mem_cons_of_mem _ (htail x hx)⟩
        rw [List.dropWhile_cons_of_pos (by decide), heq]
      · rename_i hne
        have hslash : ch '/' ∉ n.dropWhile isAnySlash :=
          fun hm => hn ((List.dropWhile_suffix _).subset hm)
        refine ⟨n.dropWhile isAnySlash :: names, l, ?_, hl, isAllDots_of_dropWhile hink, ?_, ?_, ?_⟩
        · rw [List.cons_append, slashed_cons _ (by simp)]
        · exact List.forall_mem_cons.mpr ⟨hslash, hrest⟩
        · simpa using hne
        · exact fun x hx => List.mem_cons_of_mem _ hx

end Dropped

section Containment

variable {n : Nat} {up names xs ys acc : List Text} {m l marker : Text}

theorem below_rootedAt_iff (h : Rooted n up) (hxs : ∀ x ∈ xs, isName x = true) :
    Below (rootedAt n up) (rootedAt n xs) ↔ ∃ zs, zs ≠ [] ∧ xs = up ++ zs := by
  constructor
  · rintro ⟨zs, hne, hzs, heq⟩
    rw [join_slashed h hne hzs] at heq
    exact ⟨zs, hne, rootedAt_injective hxs (List.forall_mem_append.mpr ⟨h.named, hzs⟩) heq⟩
  · rintro ⟨zs, hne, rfl⟩
    have hzs : ∀ x ∈ zs, isName x = true := fun x hx => hxs x (List.mem_append_right _ hx)
    exact ⟨zs, hne, hzs, (join_slashed h hne hzs).symm⟩

theorem resolveParts_cons (hacc : ∀ x ∈ acc, isName x = true) (hm : ch '/' ∉ m) (hne : m ≠ [])
    (hys : ∀ y ∈ ys, isName y = true) : resolveParts true acc (m :: ys) =
      ys.reverse ++ (if m = [ch '.', '.'] then acc.tail else if m = [ch '.'] then acc else m :: acc) := by
  have hnames (acc : List Text) : resolveParts true acc ys = ys.reverse ++ acc := resolveParts_of_named hys acc
  by_cases hdots : m = [ch '.', '.']
  · subst hdots
    rw [if_pos rfl, resolveParts.eq_def]
    cases acc with
    | nil => exact hnames []
    | cons q qs =>
        have hq := (isName_iff.mp (hacc q (List.mem_cons_self ..))).2.2.2
        simpa [hq] using hnames qs
  · by_cases hdot : m = [ch '.']
    · subst hdot
      rw [if_neg hdots, if_pos rfl, resolveParts.eq_def]
      exact hnames acc
    · rw [if_neg hdots, if_neg hdot, resolveParts_name (isName_iff.mpr ⟨hne, hm, hdot, hdots⟩), hnames]

theorem exists_back_iff (hne : ys ≠ []) :
    (∃ zs, zs ≠ [] ∧ up.dropLast ++ ys = up ++ zs) ↔
      up = [] ∨ ys.head? = some (up.getLast?.getD []) ∧ 1 < ys.length := by
  rcases List.eq_nil_or_concat up with rfl | ⟨init, b, hconcat⟩
  · simpa using hne
  · rw [List.concat_eq_append] at hconcat
    subst hconcat
    rw [List.dropLast_concat, List.getLast?_concat, Option.getD_some]
    constructor
    · rintro ⟨zs, hzs, heq⟩
      rw [List.append_assoc, List.append_cancel_left_eq] at heq
      have hpos := List.length_pos_iff.mpr hzs
      refine .inr ⟨by rw [heq]; rfl, ?_⟩
      rw [heq, List.length_append, List.length_singleton]
      omega
    · rintro (hnil | ⟨hhead, hlen⟩)
      · simp at hnil
      · obtain ⟨zs, rfl⟩ := List.head?_eq_some_iff.mp hhead
        refine ⟨zs, ?_, by simp⟩
        rintro rfl
        simp at hlen

def landing (up : List Text) (m : Text) : List Text :=
  if m = [ch '.', '.'] then up.dropLast else if m = [ch '.'] then up else up ++ [m]

def LeadsBack (up ys : List Text) : Prop :=
  up = [] ∨ ys.head? = some (up.getLast?.getD []) ∧ 1 < ys.length

theorem named_landing (h : Rooted n up) (hm : ch '/' ∉ m) (hne : m ≠ []) :
    ∀ x ∈ landing up m, isName x = true := by
  rw [landing]
  split
  · exact fun x hx => h.named x ((List.dropLast_sublist up).subset hx)
  · split
    · exact h.named
    · rename_i hclimb hdot
      have hname : isName m = true := isName_iff.mpr ⟨hne, hm, hdot, hclimb⟩
      exact List.forall_mem_append.mpr ⟨h.named, by simpa using hname⟩

theorem absolute_join_slashed_cons (h : Rooted n up) (current : Text) (hm : ch '/' ∉ m) (hne : m ≠ [])
    (hys : ∀ y ∈ ys, isName y = true) :
    absolute current (join (rootedAt n up) (slashed (m :: ys))) = rootedAt n (landing up m ++ ys) := by
  have hup : ∀ x ∈ up.reverse, isName x = true := fun x hx => h.named x (List.mem_reverse.mp hx)
  have hhead : (slashed (m :: ys)).head? ≠ some (ch '/') := by simpa using head?_slashed_cons hne hm ys []
  have hparts : parts (slashed (m :: ys)) = m :: ys :=
    parts_slashed (List.cons_ne_nil _ _)
      (List.forall_mem_cons.mpr ⟨hm, fun y hy => (isName_iff.mp (hys y hy)).2.1⟩)
  rw [absolute_join h current hhead, hparts, resolveParts_cons hup hm hne hys, List.reverse_append,
    List.reverse_reverse, landing]
  split
  · rw [List.tail_reverse, List.reverse_reverse]
  · split
    · rw [List.reverse_reverse]
    · rw [List.reverse_cons, List.reverse_reverse]

theorem output_slashed (h : Rooted n up) (current : Text) (hne : names ≠ [])
    (hnames : ∀ x ∈ names, isName x = true) (hplain : (slashed names).head? ≠ some (ch '\\')) :
    output current (rootedAt n up) (slashed names) [] = rootedAt n (up ++ names) := by
  obtain ⟨m, ys, rfl⟩ := List.exists_cons_of_ne_nil hne
  obtain ⟨hm, hys⟩ := List.forall_mem_cons.mp hnames
  obtain ⟨hne', hslash, hdot, hdots⟩ := isName_iff.mp hm
  have hkept : (slashed (m :: ys)).dropWhile isAnySlash = slashed (m :: ys) := by
    have hhead : (slashed (m :: ys)).head? ≠ some (ch '/') := by simpa using head?_slashed_cons hne' hslash ys []
    cases hrow : slashed (m :: ys) with
    | nil => rfl
    | cons c t =>
        rw [hrow] at hhead hplain
        refine List.dropWhile_cons_of_neg ?_
        simpa [isAnySlash] using And.intro hhead hplain
  rw [output_eq, hkept, marked_nil, absolute_join_slashed_cons h current hslash hne' hys, landing, if_neg hdots,
    if_neg hdot, List.append_assoc, List.singleton_append]

theorem below_landing_iff (h : Rooted n up) (hm : ch '/' ∉ m) (hne : m ≠ []) (hys : ∀ y ∈ ys, isName y = true)
    (hends : isName m = true ∨ ys ≠ []) :
    Below (rootedAt n up) (rootedAt n (landing up m ++ ys)) ↔ (m = [ch '.', '.'] → LeadsBack up ys) := by
  rw [below_rootedAt_iff h (List.forall_mem_append.mpr ⟨named_landing h hm hne, hys⟩), landing]
  by_cases hclimb : m = [ch '.', '.']
  · have hys' : ys ≠ [] := hends.resolve_left fun hname => (isName_iff.mp hname).2.2.2 hclimb
    rw [if_pos hclimb, exists_back_iff hys', LeadsBack]
    simp [hclimb]
  · refine iff_of_true ?_ fun heq => absurd heq hclimb
    rw [if_neg hclimb]
    split
    · rename_i hdot
      exact ⟨ys, hends.resolve_left fun hname => (isName_iff.mp hname).2.2.1 hdot, rfl⟩
    · exact ⟨m :: ys, List.cons_ne_nil _ _, by simp⟩

theorem isEmpty_last_iff (h : Rooted n up) : (up.getLast?.getD []).isEmpty = true ↔ up = [] := by
  rcases List.eq_nil_or_concat up with rfl | ⟨init, b, hconcat⟩
  · simp
  · have hb : b ≠ [] := (isName_iff.mp (h.named b (by simp [hconcat]))).1
    simp [hconcat, hb]

theorem climbs_eq_false_iff (h : Rooted n up) {name : Text}
    (hparts : parts (name.dropWhile isAnySlash) = m :: ys) :
    climbs (rootedAt n up) name = false ↔ (m = [ch '.', '.'] → LeadsBack up ys) := by
  rw [climbs, baseName_rootedAt h, LeadsBack, ← isEmpty_last_iff h]
  simp only [hparts, List.head?_cons, List.tail_cons]
  by_cases hclimb : m = [ch '.', '.']
  · simp [hclimb, imp_iff_not_or]
  · simp [hclimb]

theorem leadsBack_append_singleton_iff (a b : Text) (rest : List Text) :
    LeadsBack up (rest ++ [a]) ↔ LeadsBack up (rest ++ [b]) := by
  cases rest with
  | nil => simp [LeadsBack]
  | cons x rest => simp [LeadsBack]

theorem below_output_iff (h : Rooted n up) (current : Text) (hnames : ∀ x ∈ names ++ [l], isName x = true)
    (hink : isAllDots (l.dropWhile isAnySlash) = false) (hmarker : ch '/' ∉ marker) :
    Below (rootedAt n up) (output current (rootedAt n up) (slashed (names ++ [l])) marker) ↔
      climbs (rootedAt n up) (slashed (names ++ [l])) = false := by
  have hslash := slash_not_mem_of_named hnames
  obtain ⟨init, k, hdrop, hk, hdots, hinit, hhead, htail⟩ :=
    exists_dropWhile_slashed (fun x hx => hslash x (List.mem_append_left _ hx)) (hslash l (by simp)) hink
  have hmarked := isName_marked hk hmarker hdots
  have hparts : parts ((slashed (names ++ [l])).dropWhile isAnySlash) = init ++ [k] := by
    rw [hdrop]
    exact parts_slashed (by simp) (List.forall_mem_append.mpr ⟨hinit, by simpa using hk⟩)
  rw [output_eq, hdrop, marked_slashed marker init hk]
  cases init with
  | nil =>
      obtain ⟨hne, hmslash, -, hnotup⟩ := isName_iff.mp hmarked
      have hk' : k ≠ [ch '.', '.'] := by
        rintro rfl
        exact absurd hdots (by decide)
      rw [climbs_eq_false_iff h hparts, List.nil_append,
        absolute_join_slashed_cons h current hmslash hne (List.forall_mem_nil _),
        below_landing_iff h hmslash hne (List.forall_mem_nil _) (.inl hmarked)]
      exact iff_of_true (fun heq => absurd heq hnotup) (fun heq => absurd heq hk')
  | cons m rest =>
      have hm : ch '/' ∉ m := hinit m List.mem_cons_self
      have hne : m ≠ [] := hhead m rfl
      have hys : ∀ y ∈ rest ++ [marked marker k], isName y = true := by
        intro y hy
        rcases List.mem_append.mp hy with hy | hy
        · exact hnames y (htail y (by simp [hy]))
        · rw [List.mem_singleton.mp hy]
          exact hmarked
      rw [List.cons_append] at hparts
      rw [climbs_eq_false_iff h hparts, List.cons_append, absolute_join_slashed_cons h current hm hne hys,
        below_landing_iff h hm hne hys (.inr (by simp)), leadsBack_append_singleton_iff (marked marker k) k]

end Containment

section Written

variable {n : Nat} {up names : List Text} {p : Text}

theorem expandHome_of_head (env : Environment) (h : p.head? ≠ some (ch '~')) : expandHome env p = p := by
  rw [expandHome]
  rintro rest rfl
  exact h rfl

theorem expandVariables_of_not_mem (env : Environment) (h : ch '$' ∉ p) : expandVariables env p = p := by
  have hfrom : ∀ b, rewriteFrom (variableValues env) b 0 p = p := by
    induction p with
    | nil => exact fun b => rewriteFrom_nil _ b 0
    | cons c cs ih =>
        rw [List.mem_cons, not_or] at h
        intro b
        have hnone : variableValues env b (c :: cs) = none := by
          rw [variableValues]
          exact fun _ heq => h.1 (List.cons.inj heq).1.symm
        rw [rewriteFrom, hnone]
        exact congrArg _ (ih h.2 _)
  exact hfrom true

def isVerbatim (c : CodePoint) : Bool := !isBlank c && c != '~' && c != '$'

theorem absolute_slashed (h : Rooted n up) (hne : names ≠ []) (hnames : ∀ x ∈ names, isName x = true) :
    absolute (rootedAt n up) (slashed names) = rootedAt n (up ++ names) := by
  have hhead := head?_slashed_ne_slash hne hnames []
  rw [List.append_nil] at hhead
  have hrelative : isAbsolute (slashed names) = false := by simpa [isAbsolute] using hhead
  have hjoined : isAbsolute (join (rootedAt n up) (slashed names)) = true := by
    rw [join_slashed h hne hnames]
    exact isAbsolute_rootedAt h.slashes _
  have hresolved : absolute (rootedAt n up) (join (rootedAt n up) (slashed names)) = _ :=
    absolute_join h (rootedAt n up) hhead
  rw [absolute, hjoined, if_pos rfl, parts_slashed hne (slash_not_mem_of_named hnames)] at hresolved
  rw [absolute, hrelative, if_neg Bool.false_ne_true, hresolved, resolveParts_of_named hnames,
    List.reverse_append, List.reverse_reverse, List.reverse_reverse]

theorem ofUser_slashed (env : Environment) (h : Rooted n up) (hne : names ≠ [])
    (hnames : ∀ x ∈ names, isName x = true) (hverbatim : ∀ c ∈ slashed names, isVerbatim c = true)
    (fallback : Text) : ofUser env (rootedAt n up) (slashed names) fallback = rootedAt n (up ++ names) := by
  simp only [isVerbatim, Bool.and_eq_true, Bool.not_eq_true', bne_iff_ne, ne_eq] at hverbatim
  have hstrip := strip_of_no_blank fun c hc => (hverbatim c hc).1.1
  have hhome : (slashed names).head? ≠ some (ch '~') := fun hhead =>
    (hverbatim '~' (List.mem_of_mem_head? hhead)).1.2 rfl
  have hdollar : ch '$' ∉ slashed names := fun hmem => (hverbatim '$' hmem).2 rfl
  have hsome : (slashed names).isEmpty = false := by simpa using slashed_ne_nil hne hnames
  rw [ofUser, hstrip, hsome, if_neg Bool.false_ne_true, expandHome_of_head env hhome,
    expandVariables_of_not_mem env hdollar, absolute_slashed h hne hnames]

end Written

end CodeCompaction.Path
