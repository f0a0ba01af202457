import Mathlib.Data.List.TakeWhile
import CodeCompaction.Comment.Removal
import CodeCompaction.Proofs.Text.Leftmost
import CodeCompaction.Proofs.Text.Ways

namespace CodeCompaction.Comment

open CodeCompaction.Text

def StandsAt (w t : Text) (i : Nat) : Prop := w <+: t.drop i

inductive Delimits : BlockMark → Text → Text → Prop where
  | starred : Delimits .starred [ch '/', '*'] [ch '*', '/']
  | delimited (opener closer : Text) : Delimits (.delimited opener closer) opener closer
  | leveled (n : Nat) : Delimits .leveled ([ch '-', (ch '-'), (ch '[')] ++ List.replicate n (ch '=') ++ [ch '['])
      ([ch ']'] ++ List.replicate n (ch '=') ++ [ch ']'])

def CommentAt (m : BlockMark) (t : Text) (i j : Nat) : Prop :=
  ∃ opener closer k, Delimits m opener closer ∧ StandsAt opener t i ∧ i + opener.length ≤ k ∧
    StandsAt closer t k ∧ (∀ k', i + opener.length ≤ k' → k' < k → ¬ StandsAt closer t k') ∧
    j = k + closer.length

section Scan

variable {o o' c t : Text} {body : Text → Option Nat} {n : Nat}

theorem throughCloser_eq_some_iff (hc : c ≠ []) : throughCloser c t = some n ↔
    ∃ k, StandsAt c t k ∧ (∀ k' < k, ¬ StandsAt c t k') ∧ n = k + c.length := by
  induction t generalizing n with
  | nil => simp [throughCloser, StandsAt, hc]
  | cons d t ih =>
      have hzero : StandsAt c (d :: t) 0 ↔ c.isPrefixOf (d :: t) = true := List.isPrefixOf_iff_prefix.symm
      have hsucc (k : Nat) : StandsAt c (d :: t) (k + 1) ↔ StandsAt c t k := Iff.rfl
      rw [throughCloser]
      split
      · rename_i hfront
        constructor
        · intro h
          exact ⟨0, hzero.mpr hfront, fun _ hlt => absurd hlt (Nat.not_lt_zero _),
            by rw [← Option.some.inj h, Nat.zero_add]⟩
        · rintro ⟨k, -, hfirst, rfl⟩
          cases k with
          | zero => rw [Nat.zero_add]
          | succ k => exact absurd (hzero.mpr hfront) (hfirst 0 (Nat.succ_pos k))
      · rename_i hfront
        rw [Option.map_eq_some_iff]
        constructor
        · rintro ⟨n, hn, rfl⟩
          obtain ⟨k, hk, hfirst, rfl⟩ := ih.mp hn
          refine ⟨k + 1, (hsucc k).mpr hk, fun k' hlt => ?_, by omega⟩
          cases k' with
          | zero => exact fun h => hfront (hzero.mp h)
          | succ k' => exact hfirst k' (Nat.lt_of_succ_lt_succ hlt)
        · rintro ⟨k, hk, hfirst, rfl⟩
          cases k with
          | zero => exact absurd (hzero.mp hk) hfront
          | succ k =>
              refine ⟨k + c.length, ih.mpr ⟨k, hk, fun k' hlt => ?_, rfl⟩, by omega⟩
              exact hfirst (k' + 1) (Nat.succ_lt_succ hlt)

theorem behind_eq_some_iff : behind o t body = some n ↔
    o <+: t ∧ ∃ k, body (t.drop o.length) = some k ∧ n = k + o.length := by
  rw [behind]
  split
  · rename_i h
    rw [Option.map_eq_some_iff]
    simp [List.isPrefixOf_iff_prefix.mp h, eq_comm]
  · rename_i h
    simp [← List.isPrefixOf_iff_prefix, h]

theorem behind_append (o o' t : Text) (body : Text → Option Nat) :
    behind (o ++ o') t body = behind o t (fun u => behind o' u body) := by
  by_cases h : o <+: t
  · obtain ⟨r, rfl⟩ := h
    have hfront : (o ++ o').isPrefixOf (o ++ r) = o'.isPrefixOf r := by
      rw [Bool.eq_iff_iff, List.isPrefixOf_iff_prefix, List.isPrefixOf_iff_prefix,
        List.prefix_append_right_inj]
    have hwhole : o.isPrefixOf (o ++ r) = true := List.isPrefixOf_iff_prefix.mpr (List.prefix_append ..)
    simp only [behind, hfront, hwhole, if_true, List.drop_left, List.length_append, ← List.drop_drop]
    split
    · rw [Option.map_map]
      refine congrArg (Option.map · _) (funext fun n => ?_)
      rw [Function.comp_apply]
      omega
    · rfl
  · have hlong : ¬ (o ++ o') <+: t := fun hp => h ((List.prefix_append o o').trans hp)
    rw [← List.isPrefixOf_iff_prefix] at h hlong
    rw [behind, behind, if_neg h, if_neg hlong]

theorem starBody_eq_throughCloser (t : Text) : starBody t = throughCloser [ch '*', '/'] t ∧
    (starRun t).map (· + 1) = throughCloser [ch '*', '/'] (ch '*' :: t) := by
  induction t with
  | nil => exact ⟨rfl, rfl⟩
  | cons c t ih =>
      obtain ⟨hbody, hrun⟩ := ih
      have hstep : throughCloser [ch '*', '/'] (ch '*' :: c :: t) =
          if c == '/' then some 2 else (throughCloser [ch '*', '/'] (c :: t)).map (· + 1) := by
        rw [throughCloser]
        simp [List.isPrefixOf, eq_comm (a := c)]
      have hskip (hc : c ≠ '*') :
          throughCloser [ch '*', '/'] (c :: t) = (throughCloser [ch '*', '/'] t).map (· + 1) := by
        rw [throughCloser]
        simp [List.isPrefixOf, hc.symm]
      rw [hstep, starBody, starRun]
      by_cases hstar : c = '*'
      · subst hstar
        exact ⟨by rw [← hrun]; rfl, by rw [← hrun]; rfl⟩
      · have hne : (c == '*') = false := beq_false_of_ne hstar
        rw [hne, if_neg Bool.false_ne_true, hskip hstar, hbody]
        refine ⟨rfl, ?_⟩
        split <;> rfl

end Scan

def BlockMark.isPaired : BlockMark → Bool
  | .starred => true
  | .delimited opener closer => !opener.isEmpty && !closer.isEmpty
  | .leveled => true
  | .barred .. => false
  | .either .. => false

section Paired

variable {m : BlockMark} {o c t u : Text} {i j n : Nat}

theorem Delimits.ne_nil (h : Delimits m o c) (hm : m.isPaired = true) : o ≠ [] ∧ c ≠ [] := by
  cases h with
  | starred => simp
  | delimited opener closer => simpa [BlockMark.isPaired] using hm
  | leveled n => simp

theorem takeWhile_level {v : Text} {l : Nat} (h : List.replicate l (ch '=') ++ [ch '['] <+: v) :
    v.takeWhile (· == ch '=') = List.replicate l (ch '=') := by
  obtain ⟨r, rfl⟩ := h
  have hlevel : ∀ c ∈ List.replicate l (ch '='), (c == '=') = true := by
    intro c hc
    rw [List.eq_of_mem_replicate hc]
    rfl
  rw [List.append_assoc, List.takeWhile_append_of_pos hlevel]
  exact List.append_nil _

theorem leveledBody_eq_some_iff {v : Text} : leveledBody v = some n ↔
    ∃ l, behind (List.replicate l (ch '=') ++ [ch '[']) v
      (throughCloser ([ch ']'] ++ List.replicate l (ch '=') ++ [ch ']'])) = some n := by
  have hlevel : v.takeWhile (· == ch '=') = List.replicate (v.takeWhile (· == ch '=')).length (ch '=') :=
    List.eq_replicate_of_mem (fun c hc => by simpa using List.mem_takeWhile_imp hc)
  constructor
  · intro h
    refine ⟨(v.takeWhile (· == ch '=')).length, ?_⟩
    rw [← hlevel]
    exact h
  · rintro ⟨l, h⟩
    have hopen := takeWhile_level (behind_eq_some_iff.mp h).1
    simpa only [leveledBody, hopen] using h

theorem length?_eq_some_iff (hm : m.isPaired = true) : m.length? u = some n ↔
    ∃ o c, Delimits m o c ∧ behind o u (throughCloser c) = some n := by
  cases m with
  | starred =>
      have hbody : starBody = throughCloser [ch '*', '/'] := funext fun t => (starBody_eq_throughCloser t).1
      rw [BlockMark.length?, hbody]
      constructor
      · exact fun h => ⟨_, _, .starred, h⟩
      · rintro ⟨_, _, ⟨⟩, h⟩
        exact h
  | delimited opener closer =>
      constructor
      · exact fun h => ⟨_, _, .delimited opener closer, h⟩
      · rintro ⟨_, _, ⟨⟩, h⟩
        exact h
  | leveled =>
      have hlevels (l : Nat) := behind_append [ch '-', (ch '-'), (ch '[')] (List.replicate l (ch '=') ++ [ch '[']) u
        (throughCloser ([ch ']'] ++ List.replicate l (ch '=') ++ [ch ']']))
      rw [BlockMark.length?, behind_eq_some_iff]
      constructor
      · rintro ⟨hopen, k, hk, rfl⟩
        obtain ⟨l, hl⟩ := leveledBody_eq_some_iff.mp hk
        refine ⟨_, _, .leveled l, ?_⟩
        rw [List.append_assoc, hlevels, behind_eq_some_iff]
        exact ⟨hopen, k, hl, rfl⟩
      · rintro ⟨_, _, hd, h⟩
        cases hd with
        | leveled l =>
            rw [List.append_assoc, hlevels, behind_eq_some_iff] at h
            obtain ⟨hopen, k, hk, rfl⟩ := h
            exact ⟨hopen, k, leveledBody_eq_some_iff.mpr ⟨l, hk⟩, rfl⟩
  | barred => simp [BlockMark.isPaired] at hm
  | either => simp [BlockMark.isPaired] at hm

theorem behind_throughCloser_eq_some_iff (hc : c ≠ []) : behind o u (throughCloser c) = some n ↔
    StandsAt o u 0 ∧ ∃ k, o.length ≤ k ∧ StandsAt c u k ∧
      (∀ k', o.length ≤ k' → k' < k → ¬ StandsAt c u k') ∧ n = k + c.length := by
  have hshift (k : Nat) : StandsAt c (u.drop o.length) k ↔ StandsAt c u (o.length + k) := by
    rw [StandsAt, StandsAt, List.drop_drop]
  rw [behind_eq_some_iff]
  refine and_congr_right (fun _ => ?_)
  constructor
  · rintro ⟨n, hn, rfl⟩
    obtain ⟨k, hk, hfirst, rfl⟩ := (throughCloser_eq_some_iff hc).mp hn
    refine ⟨o.length + k, Nat.le_add_right .., (hshift k).mp hk, fun k' hle hlt => ?_, by omega⟩
    have := hfirst (k' - o.length) (by omega)
    rwa [hshift, Nat.add_sub_cancel' hle] at this
  · rintro ⟨k, hle, hk, hfirst, rfl⟩
    refine ⟨k - o.length + c.length, (throughCloser_eq_some_iff hc).mpr ⟨_, ?_, fun k' hlt => ?_, rfl⟩,
      by omega⟩
    · rwa [hshift, Nat.add_sub_cancel' hle]
    · rw [hshift]
      exact hfirst _ (Nat.le_add_right ..) (by omega)

theorem matchAt_iff_commentAt (hm : m.isPaired = true) (i j : Nat) :
    MatchAt m.pattern t i j ↔ CommentAt m t i j := by
  have hshift (w : Text) (k : Nat) : StandsAt w (t.drop i) k ↔ StandsAt w t (i + k) := by
    rw [StandsAt, StandsAt, List.drop_drop]
  rw [MatchAt, BlockMark.pattern, length?_eq_some_iff hm]
  constructor
  · rintro ⟨hlt, o, c, hd, h⟩
    obtain ⟨ho, k, hle, hk, hfirst, hend⟩ := (behind_throughCloser_eq_some_iff (hd.ne_nil hm).2).mp h
    refine ⟨o, c, i + k, hd, (hshift o 0).mp ho, by omega, (hshift c k).mp hk, fun k' hle' hlt' => ?_,
      by omega⟩
    have := hfirst (k' - i) (by omega) (by omega)
    rwa [hshift, Nat.add_sub_cancel' (by omega)] at this
  · rintro ⟨o, c, k, hd, ho, hle, hk, hfirst, rfl⟩
    obtain ⟨-, hc⟩ := hd.ne_nil hm
    have hpos := List.length_pos_iff.mpr hc
    refine ⟨by omega, o, c, hd, (behind_throughCloser_eq_some_iff hc).mpr ⟨(hshift o 0).mpr ho, k - i,
      by omega, ?_, fun k' hle' hlt' => ?_, by omega⟩⟩
    · rwa [hshift, Nat.add_sub_cancel' (by omega)]
    · rw [hshift]
      exact hfirst _ (by omega) (by omega)

theorem CommentAt.end_unique (hm : m.isPaired = true) {j' : Nat} (h : CommentAt m t i j)
    (h' : CommentAt m t i j') : j = j' := by
  rw [← matchAt_iff_commentAt hm] at h h'
  have := Option.some.inj (h.2.symm.trans h'.2)
  have := h.1
  have := h'.1
  omega

theorem pattern_nil (hm : m.isPaired = true) : m.pattern true [] = none := by
  refine Option.eq_none_iff_forall_ne_some.mpr (fun n hn => ?_)
  obtain ⟨o, c, hd, h⟩ := (length?_eq_some_iff hm).mp hn
  exact (hd.ne_nil hm).1 (List.prefix_nil.mp (behind_eq_some_iff.mp h).1)

theorem eq_spans_iff_leftmost (hm : m.isPaired = true) {rs : List (Nat × Nat)} :
    rs = spans m.pattern t ↔ Leftmost (CommentAt m t) 0 rs := by
  have hspans : Leftmost (CommentAt m t) 0 (spans m.pattern t) :=
    (leftmost_spans (fun _ _ => rfl) (pattern_nil hm) t).congr (matchAt_iff_commentAt hm)
  constructor
  · rintro rfl
    exact hspans
  · intro h
    exact h.unique (fun h h' => h.end_unique hm h') hspans

end Paired

section Choices

open Ways

def stars : Ways := inTurn [one (· == '*'), greedily (one (· == '*'))]

def starTurn : Ways := inTurn [one (fun c => c != '/' && c != '*'), greedily (one (· != '*')), stars]

def BlockMark.ways : BlockMark → Ways
  | .starred =>
      inTurn [word [ch '/', '*'], greedily (one (· != '*')), stars, greedily starTurn, word [ch '/']]
  | .delimited opener closer => inTurn [word opener, lazily (one fun _ => true), word closer]
  | .leveled => inTurn [word [ch '-', '-', '['], captured (greedily (one (· == '='))) fun level =>
      inTurn [word [ch '['], lazily (one fun _ => true), word ([ch ']'] ++ level ++ [ch ']'])]]
  | .barred opener bar closer => inTurn [word opener, greedily (one (· != bar)), word closer]
  | .either a b => fun t => a.ways t ++ b.ways t

variable {m : BlockMark} {b : Ways} {body : Text → Option Nat}

def Follows (w : Ways) (p : Text → Option Nat) : Prop := ∀ t, (w t).head? = (p t).map t.drop

theorem map_drop_behind {o t : Text} (h : o <+: t) (body : Text → Option Nat) :
    (behind o t body).map t.drop = (body (t.drop o.length)).map (t.drop o.length).drop := by
  rw [behind, if_pos (List.isPrefixOf_iff_prefix.mpr h), Option.map_map]
  refine congrArg (Option.map · _) (funext fun n => ?_)
  rw [Function.comp_apply, List.drop_drop, Nat.add_comm]

theorem Follows.behind (h : Follows b body) (o : Text) :
    Follows (followedBy (word o) b) (fun t => behind o t body) := by
  intro t
  rw [head?_word_followedBy]
  split
  · rename_i ho
    rw [map_drop_behind (List.isPrefixOf_iff_prefix.mp ho), h]
  · rename_i ho
    simp only [Comment.behind, if_neg ho, Option.map_none]

theorem follows_throughCloser (c : Text) :
    Follows (inTurn [lazily (one fun _ => true), word c]) (throughCloser c) := by
  intro t
  rw [inTurn_cons, inTurn_singleton]
  have hword (t : Text) : (word c t).head? = if c.isPrefixOf t then some (t.drop c.length) else none := by
    rw [word]
    split <;> rfl
  induction t with
  | nil =>
      rw [head?_lazily_any_followedBy_nil, hword, throughCloser]
      cases c <;> rfl
  | cons d t ih =>
      rw [head?_lazily_any_followedBy_cons, ih, hword, throughCloser]
      split
      · rfl
      · rw [Option.none_or, Option.map_map]
        rfl

theorem length_lt_of_mem_one_followedBy {q : CodePoint → Bool}
    (hb : ∀ t r, r ∈ b t → r.length ≤ t.length) {t r : Text} (h : r ∈ followedBy (one q) b t) :
    r.length < t.length := by
  obtain ⟨u, hu, hr⟩ := List.mem_flatMap.mp h
  cases t with
  | nil => simp [one] at hu
  | cons c t =>
      rw [one] at hu
      split at hu
      · obtain rfl := List.mem_singleton.mp hu
        exact Nat.lt_succ_of_le (hb _ _ hr)
      · simp at hu

theorem length_lt_of_mem_starTurn {t r : Text} (h : r ∈ starTurn t) : r.length < t.length := by
  rw [starTurn, inTurn_cons, inTurn_cons, inTurn_singleton] at h
  refine length_lt_of_mem_one_followedBy (fun t r hr => ?_) h
  obtain ⟨u, hu, hr⟩ := List.mem_flatMap.mp hr
  rw [stars, inTurn_cons, inTurn_singleton] at hr
  have hlt := length_lt_of_mem_one_followedBy (fun _ _ => length_le_of_mem_greedily) hr
  exact hlt.le.trans (length_le_of_mem_greedily hu)

def starRest : Ways := inTurn [greedily starTurn, word [ch '/']]

theorem head?_starRest_nil : (starRest []).head? = none := by
  rw [starRest, inTurn_cons, inTurn_singleton,
    head?_greedily_followedBy (fun _ => length_lt_of_mem_starTurn)]
  rfl

theorem head?_stars_followedBy_cons (b : Ways) (c : CodePoint) (t : Text) : (followedBy stars b (c :: t)).head? =
    if c == '*' then (followedBy (greedily (one (· == '*'))) b t).head? else none := by
  rw [stars, inTurn_cons, inTurn_singleton, followedBy_assoc, head?_one_followedBy_cons]

theorem head?_starRest_cons (c : CodePoint) (t : Text) : (starRest (c :: t)).head? =
    if c == '/' then some t
    else if c == '*' then none
    else (followedBy (greedily (one (· != '*'))) (followedBy stars starRest) t).head? := by
  have hrest : followedBy (greedily starTurn) (word [ch '/']) = starRest := by
    rw [starRest, inTurn_cons, inTurn_singleton]
  rw [← hrest, head?_greedily_followedBy (fun _ => length_lt_of_mem_starTurn), hrest, starTurn, inTurn_cons,
    followedBy_assoc, head?_one_followedBy_cons, inTurn_cons, inTurn_singleton, followedBy_assoc,
    word_singleton_cons]
  by_cases hslash : c = '/'
  · subst hslash
    rfl
  · have hne : (c == '/') = false := beq_false_of_ne hslash
    simp only [bne, hne, Bool.not_false, Bool.true_and, Bool.false_eq_true, if_false, List.head?_nil,
      Option.or_none]
    cases c == '*' <;> rfl

theorem follows_star (t : Text) :
    (followedBy (greedily (one (· != '*'))) (followedBy stars starRest) t).head? =
        (starBody t).map t.drop ∧
      (followedBy (greedily (one (· == '*'))) starRest t).head? = (starRun t).map t.drop := by
  have hbody (t : Text) := head?_greedily_one_followedBy (q := (· != '*'))
    (b := followedBy stars starRest) (fun c u hc => by
      rw [head?_stars_followedBy_cons, if_neg (by simpa using hc)]) t
  have hrun (t : Text) := head?_greedily_one_followedBy (q := (· == '*')) (b := starRest) (fun c u hc => by
      obtain rfl : c = '*' := by simpa using hc
      rw [head?_starRest_cons]
      rfl) t
  induction t with
  | nil =>
      rw [hbody, hrun, List.dropWhile_nil, List.dropWhile_nil, head?_starRest_nil]
      exact ⟨rfl, rfl⟩
  | cons c t ih =>
      obtain ⟨ihbody, ihrun⟩ := ih
      have hdrop (o : Option Nat) : (o.map (· + 1)).map (c :: t).drop = o.map t.drop := by
        rw [Option.map_map]
        rfl
      rw [starBody, starRun, hdrop]
      by_cases hstar : c = '*'
      · subst hstar
        constructor
        · rw [hbody, List.dropWhile_cons_of_neg (by decide), head?_stars_followedBy_cons]
          exact ihrun
        · rw [hrun, List.dropWhile_cons_of_pos (by decide), ← hrun, ihrun]
          exact (hdrop _).symm
      · have hne : (c == '*') = false := beq_false_of_ne hstar
        constructor
        · rw [hbody, List.dropWhile_cons_of_pos (by simpa using hstar), ← hbody, hne]
          exact ihbody
        · rw [hrun, List.dropWhile_cons_of_neg (by simpa using hstar), head?_starRest_cons, hne]
          split
          · rfl
          · exact ihbody.trans (hdrop _).symm

theorem drop_length_takeWhile (q : CodePoint → Bool) (t : Text) :
    t.drop (t.takeWhile q).length = t.dropWhile q := by
  have hsplit := List.takeWhile_append_dropWhile (p := q) (l := t)
  calc t.drop (t.takeWhile q).length
      = (t.takeWhile q ++ t.dropWhile q).drop (t.takeWhile q).length := by rw [hsplit]
    _ = t.dropWhile q := List.drop_left

theorem follows_leveledBody : Follows (inTurn [captured (greedily (one (· == '='))) fun level =>
    inTurn [word [ch '['], lazily (one fun _ => true), word ([ch ']'] ++ level ++ [ch ']'])]]) leveledBody := by
  intro t
  have hopen (level : Text) := (follows_throughCloser ([ch ']'] ++ level ++ [ch ']'])).behind [ch '[']
  rw [inTurn_singleton, head?_captured_greedily_one]
  · rw [leveledBody, behind_append, map_drop_behind (List.takeWhile_prefix _), drop_length_takeWhile]
    exact hopen _ _
  · intro v c u hc
    obtain rfl : c = '=' := by simpa using hc
    exact hopen v _

theorem follows_barredBody {bar : CodePoint} {closer : Text} (hbar : closer.head? = some bar) :
    Follows (inTurn [greedily (one (· != bar)), word closer]) (barredBody bar closer) := by
  intro t
  obtain ⟨r, rfl⟩ := List.head?_eq_some_iff.mp hbar
  rw [inTurn_cons, inTurn_singleton, head?_greedily_one_followedBy]
  · simp only [barredBody, drop_length_takeWhile, word]
    split
    · rw [Option.map_some, ← List.drop_drop, drop_length_takeWhile]
      rfl
    · rfl
  · intro c u hc
    have hne : (bar == c) = false := by
      rw [Bool.beq_comm]
      simpa using hc
    rw [word, List.isPrefixOf, hne]
    rfl

def BlockMark.barsCloser : BlockMark → Bool
  | .barred _ bar closer => closer.head? == some bar
  | .either a b => a.barsCloser && b.barsCloser
  | _ => true

theorem follows_ways (hm : m.barsCloser = true) : Follows m.ways m.length? := by
  induction m with
  | starred =>
      have hbody : Follows (inTurn [greedily (one (· != '*')), stars, greedily starTurn, word [ch '/']]) starBody :=
        fun t => (follows_star t).1
      exact hbody.behind _
  | delimited opener closer => exact (follows_throughCloser closer).behind opener
  | leveled => exact follows_leveledBody.behind _
  | barred opener bar closer =>
      have hbar : closer.head? = some bar := by simpa [BlockMark.barsCloser] using hm
      exact (follows_barredBody hbar).behind opener
  | either a b iha ihb =>
      obtain ⟨ha, hb⟩ := Bool.and_eq_true_iff.mp hm
      intro t
      rw [BlockMark.ways, List.head?_append, iha ha, ihb hb, BlockMark.length?, Option.map_or]

def Bounded (p : Text → Option Nat) : Prop := ∀ t n, p t = some n → n ≤ t.length

theorem Bounded.behind (h : Bounded body) (o : Text) : Bounded (fun t => behind o t body) := by
  intro t n hn
  obtain ⟨ho, k, hk, rfl⟩ := behind_eq_some_iff.mp hn
  have hbody := h _ _ hk
  have hopen := ho.length_le
  rw [List.length_drop] at hbody
  omega

theorem bounded_throughCloser (c : Text) : Bounded (throughCloser c) := by
  intro t
  induction t with
  | nil =>
      intro n hn
      rw [throughCloser] at hn
      split at hn <;> simp_all
  | cons d t ih =>
      intro n hn
      rw [throughCloser] at hn
      split at hn
      · rename_i hc
        rw [← Option.some.inj hn]
        exact (List.isPrefixOf_iff_prefix.mp hc).length_le
      · obtain ⟨k, hk, rfl⟩ := Option.map_eq_some_iff.mp hn
        exact Nat.succ_le_succ (ih k hk)

theorem bounded_barredBody (bar : CodePoint) (closer : Text) : Bounded (barredBody bar closer) := by
  intro t n hn
  simp only [barredBody] at hn
  split at hn
  · rename_i hc
    have hclose := (List.isPrefixOf_iff_prefix.mp hc).length_le
    have hbody := (List.takeWhile_prefix (p := (· != bar)) (l := t)).length_le
    rw [List.length_drop] at hclose
    rw [← Option.some.inj hn]
    omega
  · simp at hn

theorem bounded_length? (m : BlockMark) : Bounded m.length? := by
  induction m with
  | starred =>
      have hbody : starBody = throughCloser [ch '*', '/'] := funext fun t => (starBody_eq_throughCloser t).1
      have := (bounded_throughCloser [ch '*', '/']).behind [ch '/', '*']
      rwa [← hbody] at this
  | delimited opener closer => exact (bounded_throughCloser closer).behind opener
  | leveled =>
      have hbody : Bounded leveledBody := fun t => (bounded_throughCloser _).behind _ t
      exact hbody.behind _
  | barred opener bar closer => exact (bounded_barredBody bar closer).behind opener
  | either a b iha ihb =>
      intro t n hn
      rcases Option.or_eq_some_iff.mp hn with hn | ⟨-, hn⟩
      · exact iha t n hn
      · exact ihb t n hn

theorem pattern_ways (hm : m.barsCloser = true) : m.ways.pattern = m.pattern := by
  funext b t
  rw [Ways.pattern, follows_ways hm, BlockMark.pattern, Option.map_map]
  cases h : m.length? t with
  | none => rfl
  | some n =>
      have := bounded_length? m t n h
      rw [Option.map_some, Function.comp_apply, List.length_drop, Nat.sub_sub_self this]

end Choices

section Grammar

variable {g : Grammar} {m : BlockMark}

theorem block_spans_are_first_closer_scan (hm : g.block? = some m)
    (hkind : m ∈ [.starred, markupComment, bracesComment, .leveled]) (t : Text) :
    eraseBlocks g t = erase m.ways.pattern t ∧ spans m.ways.pattern t = spans m.pattern t ∧
      ∀ rs, rs = spans m.pattern t ↔ Leftmost (CommentAt m t) 0 rs := by
  have hkinds : ∀ k ∈ [BlockMark.starred, markupComment, bracesComment, .leveled],
      k.isPaired = true ∧ k.barsCloser = true := by decide
  obtain ⟨hpaired, hbars⟩ := hkinds m hkind
  rw [pattern_ways hbars]
  refine ⟨?_, rfl, fun rs => eq_spans_iff_leftmost hpaired⟩
  simp only [eraseBlocks, hm]

theorem block_spans_are_first_closer_scan_of_levels :
    Leftmost (CommentAt .leveled "--[[ a ]=] --[==[ b ]] c --[=[ ]] ]=] ]==".toText) 0
      [(0, 22), (25, 37)] := by
  have h := block_spans_are_first_closer_scan (m := .leveled)
    (g := { line? := some dashes, block? := some .leveled, protects := true }) rfl (by decide)
    "--[[ a ]=] --[==[ b ]] c --[=[ ]] ]=] ]==".toText
  exact (h.2.2 _).mp (by decide +kernel)

end Grammar

end CodeCompaction.Comment
