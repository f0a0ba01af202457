import Mathlib
import CodeCompaction.Proofs.Batch.Accounting

namespace CodeCompaction.Batch

def Worker.Works (w : Worker) : Prop := ∀ job, w job = .ok (job ())

def Succeeds (transform : Transform) (rs : List Record) : Prop :=
  ∀ p ∈ rs.zipIdx 1, ∃ out, transform p.2 p.1 = .ok out

def told (listener? : Option Listener) (n : Nat) : List Nat :=
  if listener?.isSome then List.range' 1 n else []

section Worker

variable {worker? : Option Worker} {job : Job}

theorem handedOver_of_works (h : ∀ w ∈ worker?, w.Works) (job : Job) :
    handedOver worker? job = job () := by
  cases worker? with
  | none => rfl
  | some w => rw [handedOver, Option.getD_some, h w rfl job]

theorem blocking_of_refused {w : Worker} {e : Failure} (h : w job = .error e) :
    blocking (some w) job = awaited { result := .error e, events := [], entries := [] } := by
  rw [blocking, handedOver, Option.getD_some, h]

end Worker

section Process

variable {transform : Transform} {rs : List Record}

theorem exists_treats {n : Nat} (h : ∀ p ∈ rs.zipIdx (n + 1), ∃ out, transform p.2 p.1 = .ok out) :
    ∃ xs, xs.map Treated.record = rs ∧ Treats transform n xs := by
  induction rs generalizing n with
  | nil => exact ⟨[], rfl, trivial⟩
  | cons r rs ih =>
      rw [List.zipIdx_cons, List.forall_mem_cons] at h
      obtain ⟨⟨out, hout⟩, hrs⟩ := h
      obtain ⟨xs, rfl, hxs⟩ := ih hrs
      exact ⟨⟨r, out⟩ :: xs, rfl, hout, hxs⟩

theorem done_reported (listener? : Option Listener) (all : List Record) (xs : List Treated) :
    (if listener?.isSome then reported all xs else []).map Progress.done = told listener? xs.length := by
  rw [told]
  split
  · rw [reported, List.map_map, ← List.zipIdx_map_snd 1 xs]
    refine List.map_congr_left (fun p hp => ?_)
    obtain ⟨-, hhi, -⟩ := List.mem_zipIdx hp
    simp only [Function.comp_apply, progressOf, List.length_take]
    omega
  · rfl

theorem process_of_succeeds (h : Succeeds transform rs) (m : Mode) (listener? : Option Listener) :
    ∃ results, results.map Processed.id = rs.map Record.id ∧
      (process m transform listener? rs).result = .ok results ∧
      (process m transform listener? rs).events.map Progress.done = told listener? rs.length := by
  obtain ⟨xs, rfl, hxs⟩ := exists_treats h
  rw [process_of_treats hxs, List.length_map]
  refine ⟨xs.map Treated.processed, ?_, rfl, done_reported listener? _ xs⟩
  rw [List.map_map, List.map_map]
  rfl

theorem process_of_first_failure {k : Nat} {r : Record} {e : Failure} (hr : rs[k]? = some r)
    (he : transform (k + 1) r = .error e) (h : Succeeds transform (rs.take k)) (m : Mode)
    (listener? : Option Listener) : (process m transform listener? rs).result = .error e ∧
      (process m transform listener? rs).events.map Progress.done = told listener? k := by
  obtain ⟨xs, hrs, hxs⟩ := exists_treats h
  obtain ⟨hlt, hget⟩ := List.getElem?_eq_some_iff.mp hr
  have hlen : xs.length = k := by
    rw [← List.length_map (f := Treated.record), hrs, List.length_take, Nat.min_eq_left hlt.le]
  have hsplit : rs = xs.map Treated.record ++ r :: rs.drop (k + 1) := by
    rw [hrs, ← hget, List.getElem_cons_drop, List.take_append_drop]
  rw [hsplit, process_of_failure hxs (r := r) (e := e) (by rw [hlen, he]), ← hlen]
  exact ⟨rfl, done_reported listener? _ xs⟩

theorem transforms_of_run {s : Setup} {t : Tally} {out : List Processed} (h : (s.run t rs).result = .ok out) :
    ∀ p ∈ rs.zipIdx (t.done + 1), ∃ x, s.transform p.2 p.1 = .ok x := by
  induction rs generalizing t out with
  | nil => simp
  | cons r rs ih =>
      rw [Setup.run] at h
      rw [List.zipIdx_cons, List.forall_mem_cons]
      split at h
      · exact absurd h (by simp)
      · rename_i x hx
        cases hrest : (s.run (t.add r.content x.value) rs).result with
        | error e => simp [hrest, Except.map] at h
        | ok rest => exact ⟨⟨x, hx⟩, ih hrest⟩

theorem process_succeeds_iff {m : Mode} {listener? : Option Listener} :
    (∃ results, (process m transform listener? rs).result = .ok results) ↔ Succeeds transform rs := by
  constructor
  · rintro ⟨results, h⟩
    exact transforms_of_run h
  · intro h
    obtain ⟨results, -, hresult, -⟩ := process_of_succeeds h m listener?
    exact ⟨results, hresult⟩

theorem exists_treats_of_answer {form : Form} {m : Mode} {listener? : Option Listener}
    {results : List Processed} (h : (answer form m transform listener? rs).result = .ok results) :
    ∃ xs, xs.map Treated.record = rs ∧ results = xs.map Treated.processed ∧
      (answer form m transform listener? rs).events = if listener?.isSome then reported rs xs else [] := by
  have hprocess : (process m transform listener? rs).result = .ok results ∧
      (answer form m transform listener? rs).events = (process m transform listener? rs).events := by
    cases hresult : (process m transform listener? rs).result <;> cases form <;>
      simp_all [answer, inBackground, blocking, handedOver, ownWorker, refusing, passedOn, awaited,
        Except.mapError]
  obtain ⟨xs, rfl, hxs⟩ := exists_treats (process_succeeds_iff.mp ⟨results, hprocess.1⟩)
  rw [process_of_treats hxs] at hprocess
  exact ⟨xs, rfl, (Except.ok.inj hprocess.1).symm, hprocess.2⟩

end Process

/-- All forms of a run give the same results and tell the listener the same. Where the first failure is that
of the record behind `k` others, they tell of these `k` and give no results; who waits is given the failure as
the cause of another one. -/
theorem forms_agree (m : Mode) (transform : Transform) (listener? : Option Listener) (rs : List Record)
    (worker? : Option Worker) (hworks : ∀ w ∈ worker?, w.Works) :
    let job : Job := fun _ => process m transform listener? rs
    let forms := [answer .plain m transform listener? rs, inBackground worker? job, blocking worker? job]
    (Succeeds transform rs → ∃ results events,
      results.map Processed.id = rs.map Record.id ∧
        events.map Progress.done = told listener? rs.length ∧
        ∀ a ∈ forms, a.result = .ok results ∧ a.events = events) ∧
    (∀ k r e, rs[k]? = some r → transform (k + 1) r = .error e → Succeeds transform (rs.take k) →
      ∃ events, events.map Progress.done = told listener? k ∧ (∀ a ∈ forms, a.events = events) ∧
        forms.map Answer.result = [.error (.raised e), .error (.raised e), .error (.wrapped e)]) ∧
    (∀ w e, w job = .error e →
      (blocking (some w) job).result = .error (.wrapped e) ∧ (blocking (some w) job).events = []) ∧
    ∀ e, (RunError.wrapped e).kind = "BatchProcessingError" ∧
      (RunError.wrapped e).message = "Processing failed: ".toText ++ e.message ∧
      (RunError.wrapped e).cause? = some e := by
  intro job forms
  have hjob : handedOver worker? job = process m transform listener? rs := handedOver_of_works hworks job
  have hforms : forms = [passedOn (process m transform listener? rs),
      passedOn (process m transform listener? rs), awaited (process m transform listener? rs)] := by
    simp only [forms, inBackground, blocking, hjob]
    rfl
  refine ⟨fun h => ?_, fun k r e hr he h => ?_, fun w e hw => ?_, fun e => ⟨rfl, rfl, rfl⟩⟩
  · obtain ⟨results, hids, hresult, hdone⟩ := process_of_succeeds h m listener?
    refine ⟨results, _, hids, hdone, ?_⟩
    rw [hforms]
    simp [passedOn, awaited, hresult, Except.mapError]
  · obtain ⟨hresult, hdone⟩ := process_of_first_failure hr he h m listener?
    refine ⟨_, hdone, ?_, ?_⟩ <;> rw [hforms]
    · simp [passedOn, awaited]
    · simp [passedOn, awaited, hresult, Except.mapError]
  · rw [blocking_of_refused hw]
    exact ⟨rfl, rfl⟩

def threeRecords : List Record :=
  ["a", "b", "c"].map fun s =>
    { id := s.toText, name := (s ++ ".txt").toText, content := (s ++ "  " ++ s).toText }

def crash : Failure := { kind := "RuntimeError", message := "worker crashed".toText }

def crashesOnSecond : Transform := fun n r => if n = 2 then .error crash else byMode .usual .minify n r

theorem forms_agree_on_crash :
    let listener : Listener := fun n => if n = 1 then some "display closed".toText else none
    let job : Job := fun _ => process .minify crashesOnSecond (some listener) threeRecords
    let given : Worker := fun job => .ok (job ())
    let forms := [answer .plain .minify crashesOnSecond (some listener) threeRecords,
      inBackground (some given) job, blocking (some given) job]
    given.Works ∧ ∃ events, events.map Progress.done = [1] ∧ (∀ a ∈ forms, a.events = events) ∧
      forms.map Answer.result =
        [.error (.raised crash), .error (.raised crash), .error (.wrapped crash)] := by
  intro listener job given forms
  have hworks : given.Works := fun _ => rfl
  have hagree := forms_agree .minify crashesOnSecond (some listener) threeRecords (some given)
    (fun w hw => by cases hw; exact hworks)
  refine ⟨hworks, hagree.2.1 1 _ crash rfl rfl ?_⟩
  intro p hp
  obtain rfl : p = (threeRecords[0], 1) := by simpa [threeRecords] using hp
  exact ⟨_, rfl⟩

end CodeCompaction.Batch
