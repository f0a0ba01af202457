import CodeCompaction.Proofs.App.Containment

namespace CodeCompaction.App

open CodeCompaction.FileTree CodeCompaction.Discovery

structure Gathered where
  records : List Batch.Record := []
  sources : List Text := []

def Gathered.add (got : Gathered) (records : List Batch.Record) (sources : List Text) : Gathered :=
  { records := got.records ++ records, sources := got.sources ++ sources }

def Gathered.inputs (got : Gathered) : List Input := List.zipWith Input.mk got.records got.sources

def gatherPath (w : World) (t : Tree) (ext : Options.Argument) (p : Text) :
    Bool × Gathered → Except Stop (Bool × Gathered)
  | (alreadyRead, got) =>
      if p == stdinMark then
        (readStdin alreadyRead w.stdin).map fun content =>
          (true, got.add [{ id := stdinMark, name := stdinName ext, content }] [stdinMark])
      else
        let texts := (readPaths t w.current [p]).value.filter FileInfo.isText
        .ok (alreadyRead, got.add (records texts) (texts.map FileInfo.relative))

def gatherFrom (w : World) (t : Tree) (ext : Options.Argument) :
    Bool × Gathered → List Text → Except Stop Gathered
  | got, [] => .ok got.2
  | got, p :: ps =>
      match gatherPath w t ext p got with
      | .error stop => .error stop
      | .ok next => gatherFrom w t ext next ps

def gather (w : World) (t : Tree) (ext : Options.Argument) (paths : List Text) : Except Stop Gathered :=
  gatherFrom w t ext (false, {}) paths

/-- A record stands next to the name under which it is shown: both are those of the standard input, or of one
text below one of the paths. -/
inductive Shown (w : World) (t : Tree) (paths : List Text) : Batch.Record → Text → Prop
  | stdin (hmark : stdinMark ∈ paths) (name content : Text) :
      Shown w t paths { id := stdinMark, name, content } stdinMark
  | text {p : Text} {f : FileInfo} (hp : p ∈ paths) (hf : f ∈ (readPaths t w.current [p]).value)
      (htext : f.isText = true) :
      Shown w t paths { id := f.path, name := f.name, content := f.content } f.relative

variable {w : World} {t : Tree} {ext : Options.Argument} {alreadyRead : Bool} {paths : List Text}

def Inputs.apart (got : Gathered) (is : Inputs) : Except Stop Gathered :=
  match is.stop? with
  | some stop => .error stop
  | none => .ok (got.add (is.inputs.map Input.record) (is.inputs.map Input.source))

theorem Inputs.apart_andThen {a b : Inputs} (got : Gathered) : (a.andThen b).apart got =
    b.apart (got.add (a.inputs.map Input.record) (a.inputs.map Input.source)) := by
  simp only [apart, andThen, Gathered.add, List.map_append, List.append_assoc]

theorem gatherPath_below {p : Text} (hp : (p == stdinMark) = false) (got : Gathered) :
    gatherPath w t ext p (alreadyRead, got) = .ok (alreadyRead,
      got.add ((inputsBelow w t p).inputs.map Input.record) ((inputsBelow w t p).inputs.map Input.source)) := by
  have hfilter : ∀ fs : List FileInfo, (fs.filter FileInfo.isText).filter FileInfo.isText =
      fs.filter FileInfo.isText := fun fs => by simp
  simp only [gatherPath, hp, Bool.false_eq_true, if_false, inputsBelow, records, hfilter, List.map_map]
  rfl

theorem gatherFrom_eq (got : Gathered) (paths : List Text) :
    gatherFrom w t ext (alreadyRead, got) paths = (collect w t ext alreadyRead paths).apart got := by
  induction paths generalizing alreadyRead got with
  | nil => simp [gatherFrom, collect, Inputs.apart, Gathered.add]
  | cons p ps ih =>
      rw [gatherFrom, collect]
      by_cases hp : (p == stdinMark) = true
      · rw [gatherPath, if_pos hp, if_pos hp]
        cases readStdin alreadyRead w.stdin with
        | error stop => rfl
        | ok content =>
            simp only [Except.map]
            rw [ih, Inputs.apart_andThen]
            rfl
      · rw [gatherPath_below (by simpa using hp), if_neg hp, Inputs.apart_andThen, ← ih]

theorem gather_eq (w : World) (t : Tree) (ext : Options.Argument) (paths : List Text) :
    gather w t ext paths = (collect w t ext false paths).apart {} :=
  gatherFrom_eq {} paths

theorem gather_eq_ok_iff {got : Gathered} : gather w t ext paths = .ok got ↔
    (collect w t ext false paths).stop? = none ∧
      got.records = (collect w t ext false paths).inputs.map Input.record ∧
      got.sources = (collect w t ext false paths).inputs.map Input.source := by
  rw [gather_eq, Inputs.apart]
  obtain ⟨rs, sources⟩ := got
  split
  · rename_i hstop
    simp [hstop]
  · rename_i hstop
    simp [hstop, Gathered.add, eq_comm]

theorem inputs_gather {got : Gathered} (h : gather w t ext paths = .ok got) :
    got.inputs = (collect w t ext false paths).inputs := by
  obtain ⟨-, hrecords, hsources⟩ := gather_eq_ok_iff.mp h
  rw [Gathered.inputs, hrecords, hsources, List.zipWith_map, List.zipWith_self]
  exact List.map_id _

theorem records_inputs {got : Gathered} (h : gather w t ext paths = .ok got) :
    got.inputs.map Input.record = got.records := by
  rw [inputs_gather h, (gather_eq_ok_iff.mp h).2.1]

theorem sources_inputs {got : Gathered} (h : gather w t ext paths = .ok got) :
    got.inputs.map Input.source = got.sources := by
  rw [inputs_gather h, (gather_eq_ok_iff.mp h).2.2]

theorem stop?_collect_eq_none_iff : (collect w t ext alreadyRead paths).stop? = none ↔
    (stdinMark ∈ paths → ∃ text, readStdin alreadyRead w.stdin = .ok text) := by
  induction paths generalizing alreadyRead with
  | nil => simp [collect]
  | cons p ps ih =>
      rw [collect]
      by_cases hp : (p == stdinMark) = true
      · obtain rfl := beq_iff_eq.mp hp
        rw [if_pos hp]
        cases hstdin : readStdin alreadyRead w.stdin with
        | error stop => simp
        | ok content =>
            have hagain : ∃ text, readStdin true w.stdin = .ok text := by
              cases hw : w.stdin with
              | interrupted => simp [hw, readStdin] at hstdin
              | content bytes => exact ⟨[], rfl⟩
            simp [Inputs.andThen, ih, hagain]
      · rw [if_neg hp]
        have hmark : stdinMark ∈ p :: ps ↔ stdinMark ∈ ps := by
          rw [List.mem_cons]
          exact or_iff_right fun h => hp (by simp [h])
        rw [hmark]
        exact ih

theorem Shown.mono {ps : List Text} {r : Batch.Record} {source : Text} (h : Shown w t ps r source)
    (hps : ps ⊆ paths) : Shown w t paths r source := by
  cases h with
  | stdin hmark name content => exact .stdin (hps hmark) name content
  | text hp hf htext => exact .text (hps hp) hf htext

theorem shown_of_mem_collect {i : Input} (h : i ∈ (collect w t ext alreadyRead paths).inputs) :
    Shown w t paths i.record i.source := by
  induction paths generalizing alreadyRead with
  | nil => simp [collect] at h
  | cons p ps ih =>
      rw [collect] at h
      by_cases hp : (p == stdinMark) = true
      · obtain rfl := beq_iff_eq.mp hp
        rw [if_pos hp] at h
        cases hstdin : readStdin alreadyRead w.stdin with
        | error stop => simp [hstdin] at h
        | ok content =>
            simp only [hstdin, Inputs.andThen, List.singleton_append, List.mem_cons] at h
            rcases h with rfl | h
            · exact .stdin List.mem_cons_self _ _
            · exact (ih h).mono (List.subset_cons_self _ _)
      · rw [if_neg hp, Inputs.andThen, List.mem_append] at h
        rcases h with h | h
        · obtain ⟨f, hf, rfl⟩ := List.mem_map.mp h
          obtain ⟨hmem, htext⟩ := List.mem_filter.mp hf
          exact .text List.mem_cons_self hmem htext
        · exact (ih h).mono (List.subset_cons_self _ _)

theorem forall₂_shown {got : Gathered} (h : gather w t ext paths = .ok got) :
    List.Forall₂ (Shown w t paths) got.records got.sources := by
  obtain ⟨-, hrecords, hsources⟩ := gather_eq_ok_iff.mp h
  rw [hrecords, hsources, List.forall₂_map_left_iff, List.forall₂_map_right_iff, List.forall₂_same]
  exact fun i hi => shown_of_mem_collect hi

theorem exists_gather_iff : (∃ got, gather w t ext paths = .ok got) ↔
    (stdinMark ∈ paths → ∃ text, readStdin false w.stdin = .ok text) := by
  refine ⟨fun ⟨got, hgot⟩ => stop?_collect_eq_none_iff.mp (gather_eq_ok_iff.mp hgot).1, fun h => ?_⟩
  have hstop : (collect w t ext false paths).stop? = none := stop?_collect_eq_none_iff.mpr h
  exact ⟨{ records := _, sources := _ }, gather_eq_ok_iff.mpr ⟨hstop, rfl, rfl⟩⟩

end CodeCompaction.App
