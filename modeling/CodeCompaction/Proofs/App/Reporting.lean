import CodeCompaction.Proofs.App.Collecting
import CodeCompaction.Proofs.App.Printing
import CodeCompaction.Proofs.Batch.Forms

namespace CodeCompaction.App

open CodeCompaction.FileTree CodeCompaction.Report CodeCompaction.Text

/-- Writes results, of which any may fail: the first argument is the number of the write, from zero. -/
structure Writer where
  write : Nat → Tree → Text → Text → Written
  told {n : Nat} {t : Tree} {path content e : Text} : (write n t path content).error? = some e → e ≠ []

namespace Writer

def own : Writer := { write := fun _ => writeResult, told := error?_writeResult_ne_nil }

def attempt (wr : Writer) (w : World) (dir : Text) (c : Config.Settings) (s : Session) (p : Item × Nat) : Written :=
  wr.write p.2 s.tree (pathFor w dir c p.1) p.1.content

def send (wr : Writer) (w : World) (dir : Text) (c : Config.Settings) (s : Session) (p : Item × Nat) : Sent :=
  let out := wr.attempt w dir c s p
  { session := (s.withTree out.tree).emit out.entries
    report := writtenReport (pathFor w dir c p.1) out.error? p.1
    raised? := out.raised? }

def emitResults (wr : Writer) (w : World) (c : Config.Settings) (echo : Bool) (s : Session) (is : List Item) :
    Emitted :=
  match outputDir? w c with
  | none => sendAll (printOne w echo (1 < is.length)) s is
  | some dir => sendAll (wr.send w dir c) s is.zipIdx

def sessionAt (wr : Writer) (w : World) (dir : Text) (c : Config.Settings) (s : Session) (is : List Item)
    (k : Nat) : Session :=
  before (wr.send w dir c) s is.zipIdx k

end Writer

def reportMeasures (r : FileReport) : Text × Int × Int := (r.source, r.bytesIn, r.bytesOut)

def itemMeasures (i : Item) : Text × Int × Int :=
  (i.input.source, byteCount i.input.record.content, byteCount i.content)

/-- A summary accounts for results and for what a writer made of them: it has one report for each result, in
order; each write is attempted in the session that the last one left, failed or not; and it is in order unless
one of them fails. -/
structure Accounts (wr : Writer) (w : World) (c : Config.Settings) (s : Session) (is : List Item)
    (out : Emitted) (summary : Summary) : Prop where
  measures : summary.files.map reportMeasures = is.map itemMeasures
  attempted : ∀ dir, outputDir? w c = some dir → out.session = wr.sessionAt w dir c s is is.length ∧
    ∀ k i, is[k]? = some i →
      summary.files[k]? = some (wr.send w dir c (wr.sessionAt w dir c s is k) (i, k)).report ∧
      wr.sessionAt w dir c s is (k + 1) = (wr.send w dir c (wr.sessionAt w dir c s is k) (i, k)).session
  ok : summary.ok = false ↔ ∃ dir k i, outputDir? w c = some dir ∧ is[k]? = some i ∧
    (wr.attempt w dir c (wr.sessionAt w dir c s is k) (i, k)).error? ≠ none
  bytesIn : summary.bytesIn = (summary.files.map FileReport.bytesIn).sum
  bytesOut : summary.bytesOut = (summary.files.map FileReport.bytesOut).sum
  saved : summary.bytesSaved = (summary.files.map fun r => r.bytesIn - r.bytesOut).sum

variable {wr : Writer} {w : World} {dir : Text} {c : Config.Settings} {echo : Bool} {s : Session}
variable {i : Item} {is : List Item} {n k : Nat}

section Writes

theorem error_send (wr : Writer) (w : World) (dir : Text) (c : Config.Settings) (s : Session) (p : Item × Nat) :
    (wr.send w dir c s p).report.error = (wr.attempt w dir c s p).error? := rfl

theorem send_own (s : Session) (p : Item × Nat) : Writer.own.send w dir c s p = writeOne w dir c s p.1 := by
  rw [Writer.send, Writer.attempt, Writer.own, writeOne]

theorem emitResults_own (w : World) (c : Config.Settings) (echo : Bool) (s : Session) (is : List Item) :
    Writer.own.emitResults w c echo s is = emitResults w c echo s is := by
  rw [Writer.emitResults, emitResults]
  cases outputDir? w c with
  | none => rfl
  | some dir =>
      have hsend : Writer.own.send w dir c = fun s p => writeOne w dir c s p.1 := funext₂ send_own
      simp only [hsend, sendAll_map Prod.fst, List.zipIdx_map_fst]

theorem length_emitResults_of_raised {e : Failure} (h : (wr.emitResults w c echo s is).raised? = some e) :
    (wr.emitResults w c echo s is).reports.length < is.length := by
  rw [Writer.emitResults] at h ⊢
  cases hdir : outputDir? w c with
  | none =>
      simp only [hdir] at h ⊢
      exact length_reports_of_raised h
  | some dir =>
      simp only [hdir] at h ⊢
      simpa using length_reports_of_raised h

theorem went_emitResults_of_dir (hdir : outputDir? w c = some dir)
    (hfit : ∀ i ∈ is, (pathFor w dir c i).pathRefusal? = none ∧ i.content.isScalar = true) :
    (emitResults w c echo s is).raised? = none := by
  rw [emitResults_of_dir hdir]
  exact went_sendAll_writeOne (fun i hi => (hfit i hi).1) (fun i hi => (hfit i hi).2)

theorem went_emitResults_iff_of_no_dir (hdir : c.outputDir = []) : (emitResults w c echo s is).raised? = none ↔
    (echo = true → ∀ i ∈ is, w.Takes (printed (1 < is.length) i)) := by
  rw [emitResults_of_no_dir hdir, went_sendAll_printOne_iff]

theorem measures_emitResults (h : (wr.emitResults w c echo s is).raised? = none) :
    (wr.emitResults w c echo s is).reports.map reportMeasures = is.map itemMeasures := by
  rw [Writer.emitResults] at h ⊢
  cases hdir : outputDir? w c with
  | none =>
      simp only [hdir] at h ⊢
      rw [map_reports_sendAll (g := itemMeasures) (fun _ _ => rfl), reported_of_went h]
  | some dir =>
      simp only [hdir] at h ⊢
      rw [map_reports_sendAll (g := fun p => itemMeasures p.1) (fun _ _ => rfl), reported_of_went h,
        ← List.zipIdx_map_fst 0 is, List.map_map, List.zipIdx_map_fst]
      rfl

end Writes

section Outcome

theorem ok_summaryOf_eq_false_iff {rs : List FileReport} (htold : ∀ r ∈ rs, r.error ≠ some []) :
    (summaryOf c rs).ok = false ↔ ∃ r ∈ rs, r.error ≠ none := by
  simp only [summaryOf, List.all_eq_false]
  refine exists_congr fun r => and_congr_right fun hr => ?_
  rw [present_of_ne (htold r hr)]
  simp [Option.ne_none_iff_isSome]

variable (hwent : (sendAll (wr.send w dir c) s is.zipIdx).raised? = none)

include hwent

theorem getElem?_sent (k : Nat) : (sendAll (wr.send w dir c) s is.zipIdx).reports[k]? =
    is[k]?.map fun i => (wr.send w dir c (wr.sessionAt w dir c s is k) (i, k)).report := by
  rw [getElem?_reports_sendAll hwent, List.getElem?_zipIdx, Option.map_map, Nat.zero_add]
  rfl

theorem sessionAt_succ {k : Nat} {i : Item} (hi : is[k]? = some i) : wr.sessionAt w dir c s is (k + 1) =
    (wr.send w dir c (wr.sessionAt w dir c s is k) (i, k)).session :=
  before_succ hwent (by rw [List.getElem?_zipIdx, hi, Nat.zero_add]; rfl)

theorem mem_sent {r : FileReport} : r ∈ (sendAll (wr.send w dir c) s is.zipIdx).reports ↔
    ∃ k i, is[k]? = some i ∧ (wr.send w dir c (wr.sessionAt w dir c s is k) (i, k)).report = r := by
  simp only [List.mem_iff_getElem?, getElem?_sent hwent, Option.map_eq_some_iff]

theorem told_sent {r : FileReport} (h : r ∈ (sendAll (wr.send w dir c) s is.zipIdx).reports) :
    r.error ≠ some [] := by
  obtain ⟨k, i, -, rfl⟩ := (mem_sent hwent).mp h
  rw [error_send]
  exact fun hempty => wr.told hempty (Eq.refl [])

omit hwent

theorem ok_emitResults_eq_false_iff (h : (wr.emitResults w c echo s is).raised? = none) :
    (summaryOf c (wr.emitResults w c echo s is).reports).ok = false ↔
      ∃ dir k i, outputDir? w c = some dir ∧ is[k]? = some i ∧
        (wr.attempt w dir c (wr.sessionAt w dir c s is k) (i, k)).error? ≠ none := by
  rw [Writer.emitResults] at h ⊢
  cases hdir : outputDir? w c with
  | none =>
      have hnone : ∀ r ∈ (sendAll (printOne w echo (1 < is.length)) s is).reports, r.error = none :=
        error_reports_printOne
      simp only [reduceCtorEq, false_and, exists_false, iff_false]
      rw [ok_summaryOf_eq_false_iff fun r hr => by simp [hnone r hr]]
      rintro ⟨r, hr, herror⟩
      exact herror (hnone r hr)
  | some dir =>
      simp only [hdir] at h ⊢
      rw [ok_summaryOf_eq_false_iff fun r => told_sent h]
      constructor
      · rintro ⟨r, hr, herror⟩
        obtain ⟨k, i, hi, rfl⟩ := (mem_sent h).mp hr
        exact ⟨dir, k, i, rfl, hi, herror⟩
      · rintro ⟨dir', k, i, hsame, hi, herror⟩
        obtain rfl := Option.some.inj hsame
        exact ⟨_, (mem_sent h).mpr ⟨k, i, hi, rfl⟩, herror⟩

theorem sum_map_sub {α : Type} (f g : α → Int) (xs : List α) :
    (xs.map fun x => f x - g x).sum = (xs.map f).sum - (xs.map g).sum := by
  simpa using Multiset.sum_map_sub (m := (xs : Multiset α)) (f := f) (g := g)

theorem total_eq_sum (count : FileReport → Int) (rs : List FileReport) :
    total count rs = (rs.map count).sum := by
  rw [total, List.sum_eq_foldr, List.foldr_map]

theorem accounts_emitResults (h : (wr.emitResults w c echo s is).raised? = none) :
    Accounts wr w c s is (wr.emitResults w c echo s is) (summaryOf c (wr.emitResults w c echo s is).reports) where
  measures := measures_emitResults h
  attempted dir hdir := by
    rw [Writer.emitResults, hdir] at h ⊢
    refine ⟨?_, fun k i hi => ⟨?_, sessionAt_succ h hi⟩⟩
    · rw [Writer.sessionAt, ← List.length_zipIdx (l := is), before_length]
    · simp only [summaryOf, getElem?_sent h, hi, Option.map_some]
  ok := ok_emitResults_eq_false_iff h
  bytesIn := total_eq_sum _ _
  bytesOut := total_eq_sum _ _
  saved := by
    rw [Summary.bytesSaved, summaryOf, total_eq_sum, total_eq_sum, sum_map_sub]

theorem accounts_emitResults_iff : Accounts wr w c s is (wr.emitResults w c echo s is)
    (summaryOf c (wr.emitResults w c echo s is).reports) ↔ (wr.emitResults w c echo s is).raised? = none := by
  refine ⟨fun haccounts => ?_, accounts_emitResults⟩
  cases hraised : (wr.emitResults w c echo s is).raised? with
  | none => rfl
  | some e =>
      have hfewer := length_emitResults_of_raised hraised
      have hlength := congrArg List.length haccounts.measures
      rw [List.length_map, List.length_map] at hlength
      exact absurd hlength (Nat.ne_of_lt hfewer)

end Outcome

section Sums

open Batch

theorem bytesIn_eq {out : Emitted} {summary : Summary} (h : Accounts wr w c s is out summary) :
    summary.bytesIn = (is.map fun i => byteCount i.input.record.content).sum := by
  have hin := congrArg (List.map fun m => m.2.1) h.measures
  rw [List.map_map, List.map_map] at hin
  rw [h.bytesIn]
  exact congrArg List.sum hin

theorem bytesOut_eq {out : Emitted} {summary : Summary} (h : Accounts wr w c s is out summary) :
    summary.bytesOut = (is.map fun i => byteCount i.content).sum := by
  have hout := congrArg (List.map fun m => m.2.2) h.measures
  rw [List.map_map, List.map_map] at hout
  rw [h.bytesOut]
  exact congrArg List.sum hout

theorem last_event_of_answer {form : Form} {m : Mode} {transform : Transform} {listener? : Option Listener}
    {rs : List Record} {results : List Processed}
    (h : (answer form m transform listener? rs).result = .ok results) (hlistens : listener?.isSome = true)
    (hne : rs ≠ []) :
    ∃ e, (answer form m transform listener? rs).events.getLast? = some e ∧
      (e.totalBytes : Int) = (rs.map fun r => byteCount r.content).sum ∧
      e.saved = (rs.map fun r => byteCount r.content).sum - (results.map fun r => byteCount r.content).sum := by
  obtain ⟨xs, rfl, rfl, hevents⟩ := exists_treats_of_answer h
  have htreated : xs ≠ [] := by simpa using hne
  obtain ⟨e, hlast, -, htotal, hsaved⟩ := getLast?_reported htreated
  refine ⟨e, ?_, ?_, ?_⟩
  · rw [hevents, if_pos hlistens, hlast]
  · rw [htotal, Nat.cast_list_sum, List.map_map, List.map_map]
    rfl
  · rw [hsaved, List.map_map, List.map_map, ← sum_map_sub]
    rfl

end Sums

/-- The inputs are in two lists that stand side by side, and the reports account for the results of a batch over
them, with the sums that its listener was told, whichever writes fail: in all runs but those that a failure ends
first, which leave results without a report. -/
theorem report_aligned_and_adds_up (w : World) (t : Tree) (ext : Options.Argument) (paths : List Text) :
    ((∃ got, gather w t ext paths = .ok got) ↔
      (stdinMark ∈ paths → ∃ text, readStdin false w.stdin = .ok text)) ∧
    ∀ got, gather w t ext paths = .ok got →
      List.Forall₂ (Shown w t paths) got.records got.sources ∧
      got.inputs = (collect w t ext false paths).inputs ∧
      ∀ (form : Batch.Form) (m : Mode) (transform : Batch.Transform) (listener? : Option Batch.Listener)
        (results : List Batch.Processed),
        (Batch.answer form m transform listener? got.records).result = .ok results →
        let is := itemsOf got.inputs results
        is.map (fun i => i.input.record) = got.records ∧
        is.map (fun i => i.input.source) = got.sources ∧
        is.map Item.content = results.map Batch.Processed.content ∧
        (∀ (wr : Writer) (c : Config.Settings) (echo : Bool) (s : Session),
          let out := wr.emitResults w c echo s is
          let summary := summaryOf c out.reports
          (Accounts wr w c s is out summary ↔ out.raised? = none) ∧
          (out.raised? ≠ none → out.reports.length < is.length) ∧
          (out.raised? = none → listener?.isSome = true → got.records ≠ [] → ∃ e,
            (Batch.answer form m transform listener? got.records).events.getLast? = some e ∧
              (e.totalBytes : Int) = summary.bytesIn ∧ e.saved = summary.bytesSaved)) ∧
        ∀ (c : Config.Settings) (echo : Bool) (s : Session),
          Writer.own.emitResults w c echo s is = emitResults w c echo s is ∧
          (∀ dir, outputDir? w c = some dir →
            (∀ i ∈ is, (pathFor w dir c i).pathRefusal? = none ∧ i.content.isScalar = true) →
            (emitResults w c echo s is).raised? = none) ∧
          (c.outputDir = [] → ((emitResults w c echo s is).raised? = none ↔
            (echo = true → ∀ i ∈ is, w.Takes (printed (1 < is.length) i)))) := by
  refine ⟨exists_gather_iff, fun got hgot => ⟨forall₂_shown hgot, inputs_gather hgot, ?_⟩⟩
  intro form m transform listener? results hresults is
  have hlen : got.inputs.length = results.length := by
    obtain ⟨xs, hxs, rfl, -⟩ := Batch.exists_treats_of_answer hresults
    rw [List.length_map, ← List.length_map (f := Batch.Treated.record), hxs, ← records_inputs hgot,
      List.length_map]
  have hinputs : is.map Item.input = got.inputs := inputs_itemsOf hlen
  have hcontents : is.map Item.content = results.map Batch.Processed.content := contents_itemsOf hlen
  have hrecords : is.map (fun i => i.input.record) = got.records := by
    rw [← records_inputs hgot, ← hinputs, List.map_map]
    rfl
  have hsources : is.map (fun i => i.input.source) = got.sources := by
    rw [← sources_inputs hgot, ← hinputs, List.map_map]
    rfl
  refine ⟨hrecords, hsources, hcontents, ?_, ?_⟩
  · intro wr c echo s out summary
    refine ⟨accounts_emitResults_iff, fun hraised => ?_, fun hwent hlistens hne => ?_⟩
    · obtain ⟨e, he⟩ := Option.ne_none_iff_exists'.mp hraised
      exact length_emitResults_of_raised he
    · have haccounts : Accounts wr w c s is out summary := accounts_emitResults hwent
      obtain ⟨e, hlast, htotal, hsaved⟩ := last_event_of_answer hresults hlistens hne
      have hin : summary.bytesIn = (got.records.map fun r => byteCount r.content).sum := by
        rw [bytesIn_eq haccounts, ← hrecords, List.map_map]
        rfl
      have hout : summary.bytesOut = (results.map fun r => byteCount r.content).sum := by
        have hsums := congrArg (fun ts => (ts.map byteCount).sum) hcontents
        simp only [List.map_map] at hsums
        rw [bytesOut_eq haccounts]
        exact hsums
      exact ⟨e, hlast, htotal.trans hin.symm, by rw [hsaved, Summary.bytesSaved, hin, hout]⟩
  · intro c echo s
    exact ⟨emitResults_own w c echo s is, fun dir => went_emitResults_of_dir, went_emitResults_iff_of_no_dir⟩

section FirstFails

def firstFails : Writer where
  write n t _ _ :=
    { tree := t, entries := [], error? := if n = 0 then some "No space left on device".toText else none }
  told {n t path content e} h := by
    split at h
    · rw [← Option.some.inj h]
      decide
    · exact absurd h (by simp)

def quotedTree : Tree := (quotedPhase false).ready.tree

def quotedGathered : Gathered :=
  { records := [(quotedItem quoted).input.record, (quotedItem []).input.record]
    sources := [stdinMark, stdinMark] }

theorem gather_quoted : gather quotedWorld quotedTree none [stdinMark, stdinMark] = .ok quotedGathered := by
  have hfound : collect quotedWorld quotedTree none false [stdinMark, stdinMark] = _ := found_quoted false
  rw [gather_eq, hfound]
  rfl

theorem first_fails_and_adds_up :
    let is := [quotedItem quoted, quotedItem []]
    let out := firstFails.emitResults quotedWorld twinSettings true (startSession quotedWorld) is
    let summary := summaryOf twinSettings out.reports
    summary.ok = false ∧ summary.files.map FileReport.source = [stdinMark, stdinMark] ∧
      summary.files[1]?.map FileReport.error = some none ∧ summary.bytesIn = 4 ∧
      ∃ e, (Batch.answer .blocking .raw (Batch.byMode .usual .raw) (some fun _ => none)
        quotedGathered.records).events.getLast? = some e ∧ e.totalBytes = 4 ∧ e.saved = 0 := by
  intro is out summary
  have hdir : outputDir? quotedWorld twinSettings = some twinDir := by cbv
  obtain ⟨-, hgathered⟩ := report_aligned_and_adds_up quotedWorld quotedTree none [stdinMark, stdinMark]
  obtain ⟨-, -, hbatch⟩ := hgathered _ gather_quoted
  obtain ⟨-, -, -, hreport, -⟩ := hbatch .blocking .raw (Batch.byMode .usual .raw) (some fun _ => none)
    [{ id := stdinMark, content := quoted }, { id := stdinMark, content := [] }] rfl
  obtain ⟨hlaw, -, hevents⟩ := hreport firstFails twinSettings true (startSession quotedWorld)
  have hwent : out.raised? = none := by
    change (firstFails.emitResults _ _ _ _ is).raised? = none
    rw [Writer.emitResults, hdir]
    rfl
  have haccounts : Accounts firstFails quotedWorld twinSettings (startSession quotedWorld) is out summary :=
    hlaw.mpr hwent
  obtain ⟨e, hlast, htotal, hsaved⟩ := hevents hwent rfl (List.cons_ne_nil _ _)
  have hfails : (firstFails.attempt quotedWorld twinDir twinSettings (startSession quotedWorld)
      (quotedItem quoted, 0)).error? ≠ none := by simp [Writer.attempt, firstFails]
  have hok : summary.ok = false := haccounts.ok.mpr ⟨twinDir, 0, quotedItem quoted, hdir, rfl, hfails⟩
  have hsources := congrArg (List.map Prod.fst) haccounts.measures
  rw [List.map_map] at hsources
  have hsecond : summary.files[1]? = _ := ((haccounts.attempted twinDir hdir).2 1 (quotedItem []) rfl).1
  have hin : summary.bytesIn = 4 := (bytesIn_eq haccounts).trans (by cbv)
  have hout : summary.bytesOut = 4 := (bytesOut_eq haccounts).trans (by cbv)
  refine ⟨hok, hsources, by rw [hsecond]; rfl, hin, e, hlast, ?_, ?_⟩
  · exact_mod_cast htotal.trans hin
  · rw [hsaved, Summary.bytesSaved]
    change summary.bytesIn - summary.bytesOut = 0
    rw [hin, hout]
    rfl

end FirstFails

section Unwritable

def loneResults : List Batch.Processed :=
  [{ id := stdinMark, content := loneResult }, { id := stdinMark, content := [] }]

def loneGathered : Gathered :=
  { records := [loneRecord loneText, loneRecord []], sources := [stdinMark, stdinMark] }

theorem gather_lone :
    gather loneWorld {} (some "json".toText) [stdinMark, stdinMark] = .ok loneGathered := by
  have hagain : readStdin true loneWorld.stdin = .ok [] := rfl
  simp only [gather_eq, collect, BEq.rfl, if_true, readStdin_lone, hagain]
  rfl

theorem minify_json_nil : Minify.minify .usual "json".toText [] = [] := by
  rw [Minify.minify_json_eq]
  rfl

theorem answer_lone : (Batch.answer .plain .minify (Batch.byMode .usual .minify) none
    loneGathered.records).result = .ok loneResults := by
  have hext : Path.extensionOfName "stdin.json".toText = "json".toText := by decide
  have hprocessed : (loneGathered.records.map (Batch.treat .usual .minify)).map Batch.Treated.processed =
      loneResults := by
    simp only [loneGathered, loneRecord, List.map_cons, List.map_nil, Batch.Treated.processed, Batch.treat, hext]
    rw [loneResults, ← minify_loneText, ← minify_json_nil]
    rfl
  simp only [Batch.answer, Batch.passedOn, Batch.process_byMode, hprocessed, Except.mapError]

theorem raised_loneItem :
    (writeOne loneWorld twinDir twinSettings (startSession loneWorld) loneItem).raised? ≠ none := by
  have hpath : pathFor loneWorld twinDir twinSettings loneItem = "/w/out/stdin.json".toText := by
    change Path.output [ch '/', 'w'] twinDir "stdin.json".toText [] = _
    cbv
  have htree : (startSession loneWorld).tree = {} := by cbv
  have hopen : ∃ u, (Tree.makeDirs {} (Path.dirName "/w/out/stdin.json".toText)).tree.write
      "/w/out/stdin.json".toText .empty = .ok u := ⟨_, by cbv⟩
  obtain ⟨u, hu⟩ := hopen
  rw [raised?_writeOne, written, hpath, htree]
  exact raised_writeResult_of_lone (by decide) (by cbv) hu

theorem no_report_of_unwritable :
    gather loneWorld {} (some "json".toText) [stdinMark, stdinMark] = .ok loneGathered ∧
      (Batch.answer .plain .minify (Batch.byMode .usual .minify) none loneGathered.records).result =
        .ok loneResults ∧
      let is := itemsOf loneGathered.inputs loneResults
      let out := emitResults loneWorld twinSettings true (startSession loneWorld) is
      is.length = 2 ∧ out.reports = [] := by
  refine ⟨gather_lone, answer_lone, ?_⟩
  intro is out
  have hdir : outputDir? loneWorld twinSettings = some twinDir := by cbv
  obtain ⟨e, he⟩ := Option.ne_none_iff_exists'.mp raised_loneItem
  have hout : out = _ := (emitResults_of_dir hdir true (startSession loneWorld) is).trans
    (sendAll_cons_of_raised he _)
  refine ⟨rfl, ?_⟩
  rw [hout]

end Unwritable

end CodeCompaction.App
