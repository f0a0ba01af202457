import Mathlib
import CodeCompaction.Batch.Run

namespace CodeCompaction.Batch

open CodeCompaction.Text

structure Treated where
  record : Record
  out : Logged Text

namespace Treated

def processed (x : Treated) : Processed := { id := x.record.id, content := x.out.value }

def bytes (x : Treated) : Nat := byteLength x.record.content

def saved (x : Treated) : Int := savedBytes x.record.content x.out.value

end Treated

def Treats (transform : Transform) : Nat → List Treated → Prop
  | _, [] => True
  | n, x :: xs => transform (n + 1) x.record = .ok x.out ∧ Treats transform (n + 1) xs

def tallyOf (xs : List Treated) : Tally :=
  { done := xs.length, bytes := (xs.map Treated.bytes).sum, saved := (xs.map Treated.saved).sum }

def progressOf (all : List Record) (xs : List Treated) (r : Record) : Progress :=
  { name := r.name
    done := xs.length
    total := all.length
    bytes := (xs.map Treated.bytes).sum
    totalBytes := (all.map fun r => byteLength r.content).sum
    saved := (xs.map Treated.saved).sum }

def reported (all : List Record) (xs : List Treated) : List Progress :=
  (xs.zipIdx 1).map fun p => progressOf all (xs.take p.2) p.1.record

def treatedEntries (listener? : Option Listener) (x : Treated) (number : Nat) : List Log.Entry :=
  x.out.entries ++ note Log.debug (processedMessage x.record x.out.value) ::
    listenerEntries listener? x.record number

def entriesFrom (listener? : Option Listener) (n : Nat) (xs : List Treated) : List Log.Entry :=
  (xs.zipIdx n).flatMap fun p => treatedEntries listener? p.1 p.2

theorem totalBytes_eq_sum (rs : List Record) :
    totalBytes rs = (rs.map fun r => byteLength r.content).sum := by
  induction rs with
  | nil => rfl
  | cons r rs ih =>
      rw [List.map_cons, List.sum_cons, ← ih]
      rfl

theorem tallyOf_append_singleton (xs : List Treated) (x : Treated) :
    tallyOf (xs ++ [x]) = (tallyOf xs).add x.record.content x.out.value := by
  simp [tallyOf, Tally.add, Treated.bytes, Treated.saved]

section Run

variable {s : Setup} {x : Treated} {before xs : List Treated} {rest : List Record}

theorem run_cons (h : s.transform (before.length + 1) x.record = .ok x.out) (rs : List Record) :
    s.run (tallyOf before) (x.record :: rs) =
      let next := s.run (tallyOf (before ++ [x])) rs
      { result := next.result.map (x.processed :: ·)
        events := (if s.listener?.isSome then [s.event x.record (tallyOf (before ++ [x]))] else []) ++
          next.events
        entries := treatedEntries s.listener? x (before.length + 1) ++ next.entries } := by
  have hdone : (tallyOf before).done = before.length := rfl
  rw [Setup.run, hdone, h, tallyOf_append_singleton]
  simp [treatedEntries, Tally.add, hdone, Treated.processed]

theorem run_of_failure {r : Record} {e : Failure} (h : s.transform (xs.length + 1) r = .error e) :
    s.run (tallyOf xs) (r :: rest) = { result := .error e, events := [], entries := [] } := by
  have hdone : (tallyOf xs).done = xs.length := rfl
  rw [Setup.run, hdone, h]

theorem run_append (before : List Treated) (h : Treats s.transform before.length xs) (rest : List Record) :
    s.run (tallyOf before) (xs.map Treated.record ++ rest) =
      let next := s.run (tallyOf (before ++ xs)) rest
      { result := next.result.map (xs.map Treated.processed ++ ·)
        events := (if s.listener?.isSome then (xs.zipIdx (before.length + 1)).map fun p =>
            s.event p.1.record (tallyOf ((before ++ xs).take p.2)) else []) ++ next.events
        entries := entriesFrom s.listener? (before.length + 1) xs ++ next.entries } := by
  -- the tally is that of `before`, so each event sums over `before` and the records up to its own
  induction xs generalizing before with
  | nil =>
      simp only [List.map_nil, List.nil_append, List.append_nil, List.zipIdx_nil, ite_self, entriesFrom,
        List.flatMap_nil]
      rcases s.run (tallyOf before) rest with ⟨result, events, entries⟩
      cases result <;> rfl
  | cons x xs ih =>
      obtain ⟨hx, hxs⟩ := h
      have hlen : (before ++ [x]).length = before.length + 1 := by simp
      have hassoc : before ++ [x] ++ xs = before ++ x :: xs := by simp
      have htake : (before ++ x :: xs).take (before.length + 1) = before ++ [x] := by
        rw [← hlen, ← hassoc, List.take_left]
      rw [← hlen] at hxs
      rw [List.map_cons, List.cons_append, run_cons hx, ih _ hxs, hlen, hassoc]
      simp only [entriesFrom, List.zipIdx_cons, List.map_cons, List.flatMap_cons, List.append_assoc, htake]
      congr 1
      · cases (s.run (tallyOf (before ++ x :: xs)) rest).result <;> rfl
      · split <;> simp

end Run

section Batch

variable {m : Mode} {transform : Transform} {listener? : Option Listener} {xs : List Treated}

def setupOf (transform : Transform) (listener? : Option Listener) (all : List Record) : Setup :=
  { transform, listener?, total := all.length, totalBytes := totalBytes all }

theorem event_setupOf (all : List Record) (r : Record) (xs : List Treated) :
    (setupOf transform listener? all).event r (tallyOf xs) = progressOf all xs r := by
  rw [progressOf, ← totalBytes_eq_sum]
  rfl

theorem process_eq (m : Mode) (transform : Transform) (listener? : Option Listener) (rs : List Record) :
    process m transform listener? rs =
      let out := (setupOf transform listener? rs).run (tallyOf []) rs
      { out with entries := note Log.info (startedMessage m rs) :: out.entries } := rfl

theorem process_append (h : Treats transform 0 xs) (m : Mode) (listener? : Option Listener)
    (rest : List Record) : process m transform listener? (xs.map Treated.record ++ rest) =
      let all := xs.map Treated.record ++ rest
      let next := (setupOf transform listener? all).run (tallyOf xs) rest
      { result := next.result.map (xs.map Treated.processed ++ ·)
        events := (if listener?.isSome then reported all xs else []) ++ next.events
        entries := note Log.info (startedMessage m all) :: entriesFrom listener? 1 xs ++ next.entries } := by
  have hrun := run_append (s := setupOf transform listener? (xs.map Treated.record ++ rest)) [] h rest
  simp only [List.nil_append, List.length_nil, event_setupOf] at hrun
  rw [process_eq, hrun]
  rfl

theorem process_of_treats (h : Treats transform 0 xs) (m : Mode) (listener? : Option Listener) :
    process m transform listener? (xs.map Treated.record) =
      { result := .ok (xs.map Treated.processed)
        events := if listener?.isSome then reported (xs.map Treated.record) xs else []
        entries := note Log.info (startedMessage m (xs.map Treated.record)) ::
          entriesFrom listener? 1 xs ++ [note Log.info (finishedMessage (tallyOf xs))] } := by
  have hall := process_append h m listener? []
  rw [List.append_nil] at hall
  rw [hall]
  simp [Setup.run, Except.map]

theorem process_of_failure (h : Treats transform 0 xs) {r : Record} {e : Failure}
    (hr : transform (xs.length + 1) r = .error e) (m : Mode) (listener? : Option Listener)
    (rest : List Record) : process m transform listener? (xs.map Treated.record ++ r :: rest) =
      { result := .error e
        events := if listener?.isSome then reported (xs.map Treated.record ++ r :: rest) xs else []
        entries := note Log.info (startedMessage m (xs.map Treated.record ++ r :: rest)) ::
          entriesFrom listener? 1 xs } := by
  rw [process_append h m listener? (r :: rest)]
  simp only [run_of_failure (s := setupOf transform listener? _) hr, List.append_nil]
  rfl

theorem getLast?_reported (hne : xs ≠ []) : ∃ e,
    (reported (xs.map Treated.record) xs).getLast? = some e ∧ e.bytes = e.totalBytes ∧
      e.totalBytes = (xs.map Treated.bytes).sum ∧ e.saved = (xs.map Treated.saved).sum := by
  rcases List.eq_nil_or_concat xs with rfl | ⟨ys, x, rfl⟩
  · exact absurd rfl hne
  · have hall : (ys ++ [x]).take (1 + ys.length) = ys ++ [x] :=
      List.take_of_length_le (by simp [Nat.add_comm])
    rw [List.concat_eq_append, reported, List.zipIdx_append, List.zipIdx_singleton, List.map_append,
      List.map_singleton, List.getLast?_concat, hall, progressOf, List.map_map]
    exact ⟨_, rfl, rfl, rfl, rfl⟩

theorem bytes_last_reported (xs : List Treated) :
    (reported (xs.map Treated.record) xs).getLast?.map Progress.bytes =
      (reported (xs.map Treated.record) xs).getLast?.map Progress.totalBytes := by
  rcases eq_or_ne xs [] with rfl | hne
  · rfl
  · obtain ⟨e, hlast, hbytes, -⟩ := getLast?_reported hne
    rw [hlast, Option.map_some, Option.map_some, hbytes]

end Batch

section ByMode

variable (limit : Json.NestingLimit)

def treat (m : Mode) (r : Record) : Treated :=
  { record := r, out := m.run limit (Path.extensionOfName r.name) r.content }

theorem map_record_treat (m : Mode) (rs : List Record) : (rs.map (treat limit m)).map Treated.record = rs := by
  rw [List.map_map]
  exact List.map_id rs

theorem treats_byMode (m : Mode) (n : Nat) (rs : List Record) : Treats (byMode limit m) n (rs.map (treat limit m)) := by
  induction rs generalizing n with
  | nil => trivial
  | cons r rs ih => exact ⟨rfl, ih (n + 1)⟩

theorem reported_treat (m : Mode) (rs : List Record) : reported rs (rs.map (treat limit m)) =
    (rs.zipIdx 1).map fun p =>
      { name := p.1.name
        done := p.2
        total := rs.length
        bytes := ((rs.take p.2).map fun r => byteLength r.content).sum
        totalBytes := (rs.map fun r => byteLength r.content).sum
        saved := ((rs.take p.2).map fun r => (treat limit m r).saved).sum } := by
  rw [reported, List.zipIdx_map, List.map_map]
  refine List.map_congr_left (fun p hp => ?_)
  have hle : p.2 ≤ rs.length := by
    obtain ⟨hlo, hhi, -⟩ := List.mem_zipIdx hp
    omega
  simp only [Function.comp_apply, Prod.map_fst, Prod.map_snd, id_eq, ← List.map_take, progressOf,
    List.length_map, List.length_take, Nat.min_eq_left hle, List.map_map]
  rfl

theorem process_byMode (m : Mode) (listener? : Option Listener) (rs : List Record) :
    process m (byMode limit m) listener? rs =
      { result := .ok ((rs.map (treat limit m)).map Treated.processed)
        events := if listener?.isSome then reported rs (rs.map (treat limit m)) else []
        entries := note Log.info (startedMessage m rs) :: entriesFrom listener? 1 (rs.map (treat limit m)) ++
          [note Log.info (finishedMessage (tallyOf (rs.map (treat limit m))))] } := by
  have hall := process_of_treats (treats_byMode limit m 0 rs) m listener?
  rwa [map_record_treat] at hall

end ByMode

/-- Every record has its result, and every event the sums so far. A listener that fails on some numbers
leaves one warning for each of these, behind what the record wrote. -/
theorem byMode_accounts (limit : Json.NestingLimit) (m : Mode) (listener : Listener) (rs : List Record) :
    let out := process m (byMode limit m) (some listener) rs
    let after := fun r : Record => m.apply limit (Path.extensionOfName r.name) r.content
    let saved := fun r : Record => (byteLength r.content : Int) - byteLength (after r)
    out.result = .ok (rs.map fun r => { id := r.id, content := after r }) ∧
    out.events = ((rs.zipIdx 1).map fun p =>
      { name := p.1.name
        done := p.2
        total := rs.length
        bytes := ((rs.take p.2).map fun r => byteLength r.content).sum
        totalBytes := (rs.map fun r => byteLength r.content).sum
        saved := ((rs.take p.2).map saved).sum }) ∧
    out.events.getLast?.map Progress.bytes = out.events.getLast?.map Progress.totalBytes ∧
    out.entries = note Log.info (startedMessage m rs) ::
      ((rs.zipIdx 1).flatMap fun p =>
        (m.run limit (Path.extensionOfName p.1.name) p.1.content).entries ++
          [note Log.debug (processedMessage p.1 (after p.1))] ++
          ((listener p.2).map fun text => note Log.warning
            ("Progress listener failed on ".toText ++ p.1.name ++ ": ".toText ++ text)).toList) ++
      [note Log.info (finishedMessage
        { done := rs.length
          bytes := (rs.map fun r => byteLength r.content).sum
          saved := (rs.map saved).sum })] := by
  intro out after saved
  have hout : out = _ := process_byMode limit m (some listener) rs
  have hsaved : Treated.saved ∘ treat limit m = saved := rfl
  have hbytes : Treated.bytes ∘ treat limit m = fun r => byteLength r.content := rfl
  have hevents : out.events = reported rs (rs.map (treat limit m)) := by rw [hout]; rfl
  refine ⟨?_, ?_, ?_, ?_⟩
  · rw [hout, List.map_map]
    rfl
  · rw [hevents, reported_treat]
    rfl
  · have hlast := bytes_last_reported (rs.map (treat limit m))
    rwa [map_record_treat, ← hevents] at hlast
  · rw [hout, entriesFrom, List.zipIdx_map, List.flatMap_map]
    have htally : tallyOf (rs.map (treat limit m)) =
        { done := rs.length
          bytes := (rs.map fun r => byteLength r.content).sum
          saved := (rs.map saved).sum } := by
      rw [tallyOf, List.length_map, List.map_map, List.map_map, hsaved, hbytes]
    have hentries : ∀ p : Record × Nat, treatedEntries (some listener) (treat limit m p.1) p.2 =
        (m.run limit (Path.extensionOfName p.1.name) p.1.content).entries ++
          [note Log.debug (processedMessage p.1 (after p.1))] ++
          ((listener p.2).map fun text => note Log.warning
            ("Progress listener failed on ".toText ++ p.1.name ++ ": ".toText ++ text)).toList := by
      intro p
      rw [treatedEntries, listenerEntries, Option.bind_some, List.append_assoc (m.run limit _ _).entries]
      cases listener p.2 <;> rfl
    have hflat := List.flatMap_congr (l := rs.zipIdx 1) (fun p _ => hentries p)
    rw [htally, ← hflat]
    rfl

end CodeCompaction.Batch
