import Mathlib.Data.List.Basic
import CodeCompaction.Proofs.Text.Search

namespace CodeCompaction.Text

/-- What can be left of a text behind a match, the preferred match first. -/
abbrev Ways := Text → List Text

namespace Ways

def word (w : Text) : Ways := fun t => if w.isPrefixOf t then [t.drop w.length] else []

def one (q : CodePoint → Bool) : Ways
  | [] => []
  | c :: cs => if q c then [cs] else []

def followedBy (a b : Ways) : Ways := fun t => (a t).flatMap b

def inTurn (ws : List Ways) : Ways := ws.foldr followedBy (fun t => [t])

def greedily (w : Ways) (t : Text) : List Text :=
  (w t).flatMap (fun r => if _h : r.length < t.length then greedily w r else []) ++ [t]
termination_by t.length

def lazily (w : Ways) (t : Text) : List Text :=
  t :: (w t).flatMap (fun r => if _h : r.length < t.length then lazily w r else [])
termination_by t.length

def captured (a : Ways) (b : Text → Ways) : Ways := fun t =>
  (a t).flatMap (fun r => b (t.take (t.length - r.length)) r)

def pattern (w : Ways) : Pattern := fun _ t => (w t).head?.map (fun r => t.length - r.length)

section First

variable {a b : Ways} {q : CodePoint → Bool} {t w : Text}

theorem head?_followedBy (a b : Ways) (t : Text) :
    (followedBy a b t).head? = (a t).findSome? (fun r => (b r).head?) :=
  List.head?_flatMap

theorem inTurn_cons (a : Ways) (ws : List Ways) : inTurn (a :: ws) = followedBy a (inTurn ws) := rfl

theorem followedBy_assoc (a b c : Ways) : followedBy (followedBy a b) c = followedBy a (followedBy b c) :=
  funext (fun _ => List.flatMap_assoc)

theorem inTurn_singleton (a : Ways) : inTurn [a] = a :=
  funext (fun _ => List.flatMap_singleton' _)

theorem head?_word_followedBy (w : Text) (b : Ways) (t : Text) : (followedBy (word w) b t).head? =
    if w.isPrefixOf t then (b (t.drop w.length)).head? else none := by
  rw [head?_followedBy, word]
  split
  · rw [List.findSome?_singleton]
  · rfl

theorem word_singleton_cons (d c : CodePoint) (t : Text) :
    word [d] (c :: t) = if c == d then [t] else [] := by
  simp only [word, List.isPrefixOf, Bool.and_true, List.length_singleton, List.drop_succ_cons,
    List.drop_zero, Bool.beq_comm (a := d)]

theorem head?_one_followedBy_cons (q : CodePoint → Bool) (b : Ways) (c : CodePoint) (t : Text) :
    (followedBy (one q) b (c :: t)).head? = if q c then (b t).head? else none := by
  rw [head?_followedBy, one]
  split
  · rw [List.findSome?_singleton]
  · rfl

theorem greedily_one_nil (q : CodePoint → Bool) : greedily (one q) [] = [[]] := by
  rw [greedily, one]
  rfl

theorem greedily_one_cons (q : CodePoint → Bool) (c : CodePoint) (t : Text) :
    greedily (one q) (c :: t) = (if q c then greedily (one q) t else []) ++ [c :: t] := by
  rw [greedily, one]
  split <;> simp

theorem length_le_of_mem_greedily {w : Ways} {t r : Text} (h : r ∈ greedily w t) :
    r.length ≤ t.length := by
  fun_induction greedily w t with
  | case1 t ih =>
      rcases List.mem_append.mp h with h | h
      · obtain ⟨u, hu, hr⟩ := List.mem_flatMap.mp h
        split at hr
        · rename_i hlt
          exact Nat.le_trans (ih u hlt hr) (Nat.le_of_lt hlt)
        · simp at hr
      · exact Nat.le_of_eq (congrArg List.length (List.mem_singleton.mp h))

theorem head?_greedily_followedBy {a : Ways} {t : Text} (ha : ∀ r ∈ a t, r.length < t.length) (b : Ways) :
    (followedBy (greedily a) b t).head? =
      (followedBy a (followedBy (greedily a) b) t).head?.or (b t).head? := by
  have hinner : (a t).flatMap (fun r => if _h : r.length < t.length then greedily a r else []) =
      (a t).flatMap (greedily a) := by
    refine List.flatMap_congr (fun r hr => ?_)
    rw [dif_pos (ha r hr)]
  rw [followedBy, greedily, hinner, List.flatMap_append, List.flatMap_singleton, List.head?_append,
    List.flatMap_assoc]
  rfl

theorem lazily_one_nil (q : CodePoint → Bool) : lazily (one q) [] = [[]] := by
  rw [lazily, one]
  rfl

theorem lazily_one_cons (q : CodePoint → Bool) (c : CodePoint) (t : Text) :
    lazily (one q) (c :: t) = (c :: t) :: if q c then lazily (one q) t else [] := by
  rw [lazily, one]
  split <;> simp

theorem findSome?_greedily_one {α : Type} {f : Text → Option α}
    (hf : ∀ c u, q c = true → f (c :: u) = none) (t : Text) :
    (greedily (one q) t).findSome? f = f (t.dropWhile q) := by
  induction t with
  | nil => rw [greedily_one_nil, List.findSome?_singleton, List.dropWhile_nil]
  | cons c t ih =>
      rw [greedily_one_cons, List.findSome?_append, List.findSome?_singleton]
      cases hc : q c with
      | true => rw [if_pos rfl, ih, hf c t hc, Option.or_none, List.dropWhile_cons_of_pos hc]
      | false =>
          rw [if_neg Bool.false_ne_true, List.findSome?_nil, Option.none_or,
            List.dropWhile_cons_of_neg (by simp [hc])]

theorem head?_greedily_one_followedBy (hb : ∀ c u, q c = true → (b (c :: u)).head? = none) (t : Text) :
    (followedBy (greedily (one q)) b t).head? = (b (t.dropWhile q)).head? := by
  rw [head?_followedBy, findSome?_greedily_one hb]

theorem head?_captured_greedily_one {b : Text → Ways}
    (hb : ∀ v c u, q c = true → (b v (c :: u)).head? = none) (t : Text) :
    (captured (greedily (one q)) b t).head? = (b (t.takeWhile q) (t.dropWhile q)).head? := by
  have htaken : t.take (t.length - (t.dropWhile q).length) = t.takeWhile q := by
    have hlen := congrArg List.length (List.takeWhile_append_dropWhile (p := q) (l := t))
    rw [List.length_append] at hlen
    have hcount : t.length - (t.dropWhile q).length = (t.takeWhile q).length := by omega
    rw [hcount]
    exact (List.prefix_iff_eq_take.mp (List.takeWhile_prefix q)).symm
  rw [captured, List.head?_flatMap, findSome?_greedily_one (fun c u hc => hb _ c u hc), htaken]

theorem head?_lazily_any_followedBy_cons (b : Ways) (c : CodePoint) (t : Text) :
    (followedBy (lazily (one fun _ => true)) b (c :: t)).head? =
      (b (c :: t)).head?.or (followedBy (lazily (one fun _ => true)) b t).head? := by
  rw [head?_followedBy, head?_followedBy, lazily_one_cons, if_pos rfl, List.findSome?_cons]
  cases (b (c :: t)).head? <;> rfl

theorem head?_lazily_any_followedBy_nil (b : Ways) :
    (followedBy (lazily (one fun _ => true)) b []).head? = (b []).head? := by
  rw [head?_followedBy, lazily_one_nil, List.findSome?_singleton]

end First

end Ways

end CodeCompaction.Text
