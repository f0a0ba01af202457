import Mathlib
import CodeCompaction.Tokens

namespace CodeCompaction.Tokens

variable {s : Service} {source : Source} {names : List Text} {v : Vocabulary}

inductive Call where
  | count (t : Option Text)
  | name

inductive Told where
  | tokens (n : Nat)
  | name (t : Text)
  deriving Repr, DecidableEq

namespace Call

def isIdle : Call → Bool
  | count t => (t.getD []).isEmpty
  | name => false

def answer (v : Vocabulary) : Call → Told
  | count t => .tokens (v.count (t.getD []))
  | name => .name v.name

end Call

structure Move where
  source : Source
  call : Call

def Reply.map {α β : Type} (f : α → β) (r : Reply α) : Reply β := { r with result := r.result.map f }

namespace Service

def reply (s : Service) (m : Move) : Reply Told :=
  match m.call with
  | .count t => (s.countOptional m.source t).map .tokens
  | .name => (s.name m.source).map .name

def replies (s : Service) : List Move → List (Reply Told)
  | [] => []
  | m :: ms => s.reply m :: (s.reply m).service.replies ms

def after (s : Service) (ms : List Move) : Service := ms.foldl (fun s m => (s.reply m).service) s

end Service

section Load

/-- How a load goes through the names in their order: which of them it requests, and what comes of it. -/
inductive Tries (source : Source) (names : List Text) : List Text → Except TokenError Vocabulary → Prop
  | loads {failed n rest v} : names = failed ++ n :: rest →
      (∀ x ∈ failed, ∃ reason, source x = .error (.unavailable reason)) → source n = .ok v →
        Tries source names (failed ++ [n]) (.ok v)
  | raises {failed n rest e} : names = failed ++ n :: rest →
      (∀ x ∈ failed, ∃ reason, source x = .error (.unavailable reason)) → source n = .error (.raised e) →
        Tries source names (failed ++ [n]) (.error (.raised e))
  | exhausts {failures} : failures.map Prod.fst = names →
      (∀ p ∈ failures, source p.1 = .error (.unavailable p.2)) →
        Tries source names names (.error (.noVocabulary failures))

def TokenError.behind (earlier : List (Text × Text)) : TokenError → TokenError
  | .noVocabulary failures => .noVocabulary (earlier ++ failures)
  | .raised e => .raised e

theorem Tries.cons {n : Text} {reason : Text} {requested : List Text} {outcome : Except TokenError Vocabulary}
    (hn : source n = .error (.unavailable reason)) (h : Tries source names requested outcome) :
    Tries source (n :: names) (n :: requested) (outcome.mapError (.behind [(n, reason)])) := by
  cases h with
  | loads hnames hfailed hv =>
      exact .loads (congrArg (n :: ·) hnames) (List.forall_mem_cons.mpr ⟨⟨reason, hn⟩, hfailed⟩) hv
  | raises hnames hfailed he =>
      exact .raises (congrArg (n :: ·) hnames) (List.forall_mem_cons.mpr ⟨⟨reason, hn⟩, hfailed⟩) he
  | exhausts hnames hfailures =>
      exact .exhausts (congrArg (n :: ·) hnames) (List.forall_mem_cons.mpr ⟨hn, hfailures⟩)

theorem exists_tries_loadFrom (source : Source) (earlier : List (Text × Text)) (names : List Text) :
    ∃ outcome, Tries source names (loadFrom source earlier names).requested outcome ∧
      (loadFrom source earlier names).result = outcome.mapError (.behind earlier) := by
  have hnone : ∀ x ∈ ([] : List Text), ∃ reason, source x = .error (.unavailable reason) := by simp
  induction names generalizing earlier with
  | nil =>
      refine ⟨.error (.noVocabulary []), .exhausts rfl (by simp), ?_⟩
      simp [loadFrom, Except.mapError, TokenError.behind]
  | cons n ns ih =>
      rw [loadFrom]
      cases hn : source n with
      | ok v => exact ⟨.ok v, .loads rfl hnone hn, rfl⟩
      | error e =>
          cases e with
          | raised e => exact ⟨.error (.raised e), .raises rfl hnone hn, rfl⟩
          | unavailable reason =>
              obtain ⟨outcome, htries, hresult⟩ := ih (earlier ++ [(n, reason)])
              refine ⟨_, htries.cons hn, hresult.trans ?_⟩
              rcases outcome with (failures | e) | v
              · simp [Except.mapError, TokenError.behind]
              · rfl
              · rfl

theorem tries_loadFrom (source : Source) (names : List Text) :
    Tries source names (loadFrom source [] names).requested (loadFrom source [] names).result := by
  obtain ⟨outcome, htries, hresult⟩ := exists_tries_loadFrom source [] names
  have hsame : outcome.mapError (.behind []) = outcome := by
    rcases outcome with (failures | e) | v <;> rfl
  rwa [hresult, hsame]

end Load

section Reply

variable {m : Move}

theorem reply_of_idle (hidle : m.call.isIdle = true) (s : Service) :
    s.reply m = { service := s, requested := [], entries := [], result := .ok (.tokens 0) } := by
  obtain ⟨source, call⟩ := m
  cases call with
  | count t =>
      have hempty : (t.getD []).isEmpty = true := hidle
      simp only [Service.reply, Service.countOptional, Service.count, hempty, if_true]
      rfl
  | name => exact absurd hidle Bool.false_ne_true

theorem reply_eq_ask (hbusy : m.call.isIdle = false) (s : Service) :
    s.reply m = s.ask m.source fun v => m.call.answer v := by
  have hmap : ∀ {α : Type} (f : Vocabulary → α) (g : α → Told),
      (s.ask m.source f).map g = s.ask m.source fun v => g (f v) := by
    intro α f g
    rw [Service.ask, Service.ask]
    split
    · rfl
    · simp only [Reply.map]
      cases (loadFrom m.source [] s.preferences).result <;> rfl
  obtain ⟨source, call⟩ := m
  cases call with
  | count t =>
      have htext : (t.getD []).isEmpty = false := hbusy
      simp only [Service.reply, Service.countOptional, Service.count, htext, Bool.false_eq_true, if_false]
      exact hmap _ _
  | name => exact hmap _ _

theorem reply_of_loaded (hloaded : s.loaded? = some v) (m : Move) :
    (s.reply m).service = s ∧ (s.reply m).requested = [] ∧
      (m.call.isIdle = false → (s.reply m).result = .ok (m.call.answer v)) := by
  cases hidle : m.call.isIdle with
  | true =>
      rw [reply_of_idle hidle]
      exact ⟨rfl, rfl, fun h => absurd h (by simp)⟩
  | false =>
      rw [reply_eq_ask hidle, Service.ask, hloaded]
      exact ⟨rfl, rfl, fun _ => rfl⟩

theorem reply_of_unloaded (hloaded : s.loaded? = none) (hbusy : m.call.isIdle = false) :
    ∃ outcome, Tries m.source s.preferences (s.reply m).requested outcome ∧
      (s.reply m).result = outcome.map m.call.answer ∧ (s.reply m).service.loaded? = outcome.toOption := by
  rw [reply_eq_ask hbusy, Service.ask, hloaded]
  exact ⟨_, tries_loadFrom m.source s.preferences, rfl, rfl⟩

theorem preferences_reply (s : Service) (m : Move) : (s.reply m).service.preferences = s.preferences := by
  cases hidle : m.call.isIdle with
  | true => rw [reply_of_idle hidle]
  | false =>
      rw [reply_eq_ask hidle, Service.ask]
      split <;> rfl

end Reply

section Course

variable {moves : List Move} {k : Nat}

theorem preferences_after (s : Service) (ms : List Move) : (s.after ms).preferences = s.preferences := by
  induction ms generalizing s with
  | nil => rfl
  | cons m ms ih => exact (ih _).trans (preferences_reply s m)

theorem after_of_loaded (hloaded : s.loaded? = some v) (ms : List Move) : s.after ms = s := by
  induction ms with
  | nil => rfl
  | cons m ms ih =>
      rw [Service.after, List.foldl_cons, (reply_of_loaded hloaded m).1]
      exact ih

theorem length_replies (s : Service) (moves : List Move) : (s.replies moves).length = moves.length := by
  induction moves generalizing s with
  | nil => rfl
  | cons m ms ih => rw [Service.replies, List.length_cons, List.length_cons, ih]

theorem getElem?_replies (s : Service) (moves : List Move) (k : Nat) :
    (s.replies moves)[k]? = moves[k]?.map (s.after (moves.take k)).reply := by
  induction moves generalizing s k with
  | nil => rfl
  | cons m ms ih =>
      cases k with
      | zero => rfl
      | succ k =>
          rw [Service.replies, List.getElem?_cons_succ, List.getElem?_cons_succ, ih]
          rfl

theorem service_of_getElem? {r : Reply Told} (h : (s.replies moves)[k]? = some r) :
    r.service = s.after (moves.take (k + 1)) := by
  rw [getElem?_replies] at h
  obtain ⟨m, hm, rfl⟩ := Option.map_eq_some_iff.mp h
  rw [List.take_add_one, hm, Option.toList_some, Service.after, Service.after, List.foldl_append]
  rfl

theorem exists_of_mem_take {r : Reply Told} (h : r ∈ (s.replies moves).take k) :
    ∃ ms rest, moves.take k = ms ++ rest ∧ r.service = s.after ms := by
  obtain ⟨j, hj⟩ := List.mem_iff_getElem?.mp h
  rw [List.getElem?_take] at hj
  split at hj
  · rename_i hlt
    have hsplit := List.take_append_drop (j + 1) (moves.take k)
    rw [List.take_take, Nat.min_eq_left hlt] at hsplit
    exact ⟨_, _, hsplit.symm, service_of_getElem? hj⟩
  · exact absurd hj (by simp)

theorem loaded_of_mem_take {r : Reply Told} (h : r ∈ (s.replies moves).take k)
    (hloaded : r.service.loaded? = some v) : (s.after (moves.take k)).loaded? = some v := by
  obtain ⟨ms, rest, htake, hservice⟩ := exists_of_mem_take h
  rw [hservice] at hloaded
  rw [htake, Service.after, List.foldl_append, ← Service.after, ← Service.after,
    after_of_loaded hloaded rest, hloaded]

theorem unloaded_after (hnew : s.loaded? = none) (hle : k ≤ moves.length)
    (hnone : ∀ r ∈ (s.replies moves).take k, r.service.loaded? = none) :
    (s.after (moves.take k)).loaded? = none := by
  cases k with
  | zero => exact hnew
  | succ j =>
      have hj : j < (s.replies moves).length := by rw [length_replies]; exact hle
      have hr := List.getElem?_eq_getElem hj
      rw [← service_of_getElem? hr]
      exact hnone _ (List.mem_iff_getElem?.mpr ⟨j, by rw [List.getElem?_take, if_pos j.lt_succ_self, hr]⟩)

end Course

/-- A course of calls on a new service, with any change of what can be loaded between them. A call without a
text is answered with no tokens and requests nothing. Until a load succeeds every other call goes through the
names in their order; the failures of all of them are told in one error. Once a load has succeeded nothing is
requested, and every answer comes from what was loaded then. -/
theorem first_vocabulary_stays (preferences : List Text) (moves : List Move) :
    let replies := ({ preferences } : Service).replies moves
    replies.length = moves.length ∧
    (∀ k m r, moves[k]? = some m → replies[k]? = some r →
      (m.call.isIdle = true → r.requested = [] ∧ r.result = .ok (.tokens 0)) ∧
      ((∀ r' ∈ replies.take k, r'.service.loaded? = none) →
        (m.call.isIdle = true → r.service.loaded? = none) ∧
        (m.call.isIdle = false → ∃ outcome, Tries m.source preferences r.requested outcome ∧
          r.result = outcome.map m.call.answer ∧ r.service.loaded? = outcome.toOption)) ∧
      (∀ r' ∈ replies.take k, ∀ v, r'.service.loaded? = some v →
        r.requested = [] ∧ r.service.loaded? = some v ∧
          (m.call.isIdle = false → r.result = .ok (m.call.answer v)))) ∧
    ∀ failures, (TokenError.noVocabulary failures).failure =
      { kind := "TokenizerError"
        message := "failed to load tokenizer: ".toText ++ List.intercalate "; ".toText
          (failures.map fun p => p.1 ++ ": ".toText ++ p.2) } := by
  intro replies
  refine ⟨length_replies _ moves, fun k m r hm hr => ?_, fun _ => rfl⟩
  have hreply : (({ preferences } : Service).after (moves.take k)).reply m = r := by
    have hget := getElem?_replies { preferences } moves k
    rw [hm] at hget
    exact Option.some.inj (hget.symm.trans hr)
  have hle : k ≤ moves.length := (List.getElem?_eq_some_iff.mp hm).1.le
  have hpreferences := preferences_after { preferences } (moves.take k)
  rw [← hreply]
  refine ⟨fun hidle => ?_, fun hnone => ⟨fun hidle => ?_, fun hbusy => ?_⟩, fun r' hr' v hv => ?_⟩
  · rw [reply_of_idle hidle]
    exact ⟨rfl, rfl⟩
  · rw [reply_of_idle hidle]
    exact unloaded_after rfl hle hnone
  · have htries := reply_of_unloaded (unloaded_after rfl hle hnone) hbusy
    rwa [hpreferences] at htries
  · have hloaded := loaded_of_mem_take hr' hv
    obtain ⟨hservice, hrequested, hresult⟩ := reply_of_loaded hloaded m
    refine ⟨hrequested, ?_, hresult⟩
    rw [hservice, hloaded]

def letters : Vocabulary := { name := "letters".toText, count := List.length }

def unsteady : List Move := [
  { source := fun _ => .error (.unavailable "offline".toText), call := .count none },
  { source := fun _ => .error (.unavailable "offline".toText), call := .count "xy".toText },
  { source := fun _ => .error (.raised { kind := "KeyError", message := [ch 'k'] }), call := .name },
  { source := fun n => if n = [ch 'b'] then .ok letters else .error (.unavailable "corrupt".toText), call := .name },
  { source := fun _ => .error (.unavailable "offline".toText), call := .count "xyz".toText }]

theorem first_vocabulary_stays_when_unsteady :
    let replies := ({ preferences := [[ch 'a'], [ch 'b']] } : Service).replies unsteady
    (∃ r, replies[1]? = some r ∧ ∃ outcome,
      Tries (fun _ => .error (.unavailable "offline".toText)) [[ch 'a'], [ch 'b']] r.requested outcome ∧
        r.result = outcome.map (Call.count "xy".toText).answer ∧ r.service.loaded? = outcome.toOption) ∧
    ∃ r, replies[4]? = some r ∧ r.requested = [] ∧ r.service.loaded? = some letters ∧
      r.result = .ok (.tokens 3) := by
  intro replies
  obtain ⟨-, hreplies, -⟩ := first_vocabulary_stays [[ch 'a'], [ch 'b']] unsteady
  refine ⟨⟨_, rfl, ?_⟩, ⟨_, rfl, ?_⟩⟩
  · refine ((hreplies 1 _ _ rfl rfl).2.1 (fun r' hr' => ?_)).2 rfl
    rw [List.mem_singleton.mp hr']
    rfl
  · obtain ⟨hrequested, hloaded, hresult⟩ :=
      (hreplies 4 _ _ rfl rfl).2.2 _ (List.mem_iff_getElem?.mpr ⟨3, rfl⟩) letters rfl
    exact ⟨hrequested, hloaded, hresult rfl⟩

end CodeCompaction.Tokens
