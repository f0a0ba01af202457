import Mathlib
import CodeCompaction.Proofs.Discovery.Tour

namespace CodeCompaction.Discovery

open CodeCompaction.Path CodeCompaction.FileTree

variable {t : Tree} {f : Found} {fs : List Found} {current given : Text}

def skipped (f : Found) (e : ReadFault) : Log.Entry :=
  { level := Log.warning, logger, message := e.message f.path }

def readNote (n : Nat) : Log.Entry :=
  { level := Log.info, logger, message := "Read ".toText ++ Number.decimal n ++ " files from paths".toText }

def infoOf (f : Found) (isText : Bool) (content : Text) : FileInfo :=
  { name := baseName f.path, path := f.path, content, isText, relative := f.relative }

inductive Reads (t : Tree) : List Found → List FileInfo → List Log.Entry → Prop
  | nil : Reads t [] [] []
  | tooLarge {f fs is es bytes} : t.read f.path = .ok bytes → maxFileSize < bytes.size → Reads t fs is es →
      Reads t (f :: fs) is (skipped f .tooLarge :: es)
  | notUtf8 {f fs is es bytes} : t.read f.path = .ok bytes → bytes.size ≤ maxFileSize → isText f.path = true →
      (∀ content, content.isScalar = true → encode content ≠ bytes) → Reads t fs is es →
        Reads t (f :: fs) is (skipped f .notUtf8 :: es)
  | text {f fs is es content} : t.read f.path = .ok (encode content) → content.isScalar = true →
      (encode content).size ≤ maxFileSize → isText f.path = true → Reads t fs is es →
        Reads t (f :: fs) (infoOf f true content :: is) es
  | other {f fs is es bytes} : t.read f.path = .ok bytes → bytes.size ≤ maxFileSize → isText f.path = false →
      Reads t fs is es → Reads t (f :: fs) (infoOf f false [] :: is) es

section Reading

theorem read_of_isFile {path : Text} (h : t.isFile path = true) :
    ∃ bytes, t.stat path = .ok (.file bytes) ∧ t.read path = .ok bytes := by
  obtain ⟨bytes, hat⟩ := Tree.isFile_iff.mp h
  obtain ⟨p, hlocate, hnode⟩ := Tree.at?_eq_some_iff.mp hat
  have hstat : t.stat path = .ok (.file bytes) := by
    rw [Tree.stat, hlocate]
    simp [bind, Except.bind, hnode]
  exact ⟨bytes, hstat, Tree.read_eq_ok_iff.mpr ⟨p, hlocate, hnode⟩⟩

theorem reads_cons {is : List FileInfo} {es : List Log.Entry} (hfile : t.isFile f.path = true)
    (hrelative : f.relative ≠ []) (h : Reads t fs is es) :
    Reads t (f :: fs) ((readInfoLogged t f.path f.relative).value.toList ++ is)
      ((readInfoLogged t f.path f.relative).entries ++ es) := by
  obtain ⟨bytes, hstat, hread⟩ := read_of_isFile hfile
  have hshown : f.relative.isEmpty = false := by simpa using hrelative
  by_cases hlarge : maxFileSize < bytes.size
  · have hinfo : readInfo t f.path f.relative = .error .tooLarge := by
      simp [readInfo, hstat, sizeOf, hlarge]
    rw [readInfoLogged, hinfo]
    exact .tooLarge hread hlarge h
  · have hsmall := Nat.not_lt.mp hlarge
    cases htext : isText f.path with
    | false =>
        have hinfo : readInfo t f.path f.relative = .ok (infoOf f false []) := by
          simp [readInfo, hstat, sizeOf, hlarge, htext, hshown, infoOf]
        rw [readInfoLogged, hinfo]
        exact .other hread hsmall htext h
    | true =>
        cases hdecode : decode? bytes with
        | none =>
            have hinfo : readInfo t f.path f.relative = .error .notUtf8 := by
              simp [readInfo, hstat, sizeOf, hlarge, htext, readText, hread, hdecode, Except.map]
            rw [readInfoLogged, hinfo]
            refine .notUtf8 hread hsmall htext (fun content hscalar hcontent => ?_) h
            exact absurd (decode?_eq_some_iff.mpr ⟨hscalar, hcontent⟩) (by simp [hdecode])
        | some content =>
            obtain ⟨hscalar, rfl⟩ := decode?_eq_some_iff.mp hdecode
            have hinfo : readInfo t f.path f.relative = .ok (infoOf f true content) := by
              simp [readInfo, hstat, sizeOf, hlarge, htext, readText, hread, hdecode, Except.map, hshown, infoOf]
            rw [readInfoLogged, hinfo]
            exact .text hread hscalar hsmall htext h

theorem reads_readAll (h : ∀ f ∈ fs, t.isFile f.path = true ∧ f.relative ≠ []) :
    Reads t fs (readAll t fs).value (readAll t fs).entries := by
  induction fs with
  | nil => exact .nil
  | cons f fs ih =>
      obtain ⟨⟨hfile, hrelative⟩, hrest⟩ := List.forall_mem_cons.mp h
      have hreads := reads_cons hfile hrelative (ih hrest)
      rw [readAll]
      simpa only [Logged.value_bind, Logged.entries_bind, Logged.value_pure, Logged.entries_pure,
        List.append_nil] using hreads

theorem readPaths_of_dir (hdir : t.isDir (absolute current given) = true) :
    (readPaths t current [given]).value = (readAll t (walk t (absolute current given))).value ∧
      (readPaths t current [given]).entries = (readAll t (walk t (absolute current given))).entries ++
        [readNote (readPaths t current [given]).value.length] := by
  have hthere := Tree.contains_of_isDir hdir
  have hfile : t.isFile (absolute current given) = false := by
    rw [Tree.isDir, beq_iff_eq] at hdir
    rw [Tree.isFile, hdir]
  have hpath : readPath t current given = readAll t (walk t (absolute current given)) := by
    rw [readPath, hthere, hfile]
    rfl
  simp [readPaths, readEach, hpath, Logged.write, readNote]

end Reading

section Directory

variable {k : Nat} {up : List Text}

theorem mem_everyFile_maxDepth (ht : t.isWellNamed = true) (h : Rooted k up)
    (hshallow : Shallow t maxDepth (rootedAt k up)) :
    f ∈ everyFile t maxDepth (rootedAt k up) [] ↔ ∃ names, names ≠ [] ∧ (∀ x ∈ names, isName x = true) ∧
      f.relative = slashed names ∧ f.path = join (rootedAt k up) f.relative ∧ t.isFile f.path = true := by
  constructor
  · intro hf
    obtain ⟨ds, n, -, hnames, hpath, hrelative, hfile⟩ := (mem_everyFile ht h (List.forall_mem_nil _)).mp hf
    rw [List.nil_append] at hrelative
    refine ⟨ds ++ [n], by simp, hnames, hrelative, ?_, hfile⟩
    rw [hrelative, join_slashed h (by simp) hnames, hpath]
  · rintro ⟨names, hne, hnames, hrelative, hpath, hfile⟩
    obtain ⟨ds, n, rfl⟩ : ∃ ds n, names = ds ++ [n] :=
      ⟨names.dropLast, names.getLast hne, (List.dropLast_concat_getLast hne).symm⟩
    rw [hrelative, join_slashed h hne hnames] at hpath
    -- no file lies deeper than the walk goes, so a depth at which this one is met is as good
    rw [← everyFile_of_shallow hshallow (ds.length + 1)]
    exact (mem_everyFile ht h (List.forall_mem_nil _)).mpr ⟨ds, n, by omega, hnames, hpath, hrelative, hfile⟩

theorem visible_of_mem (ht : t.isWellNamed = true) (h : Rooted k up)
    (hshallow : Shallow t maxDepth (rootedAt k up)) (hf : f ∈ everyFile t maxDepth (rootedAt k up) []) :
    f.relative ≠ [] ∧ t.isFile f.path = true ∧ (isHidden f.relative = false →
      passesDot f.relative = (parts f.relative).dropLast.any slips) := by
  obtain ⟨names, hne, hnames, hrelative, -, hfile⟩ := (mem_everyFile_maxDepth ht h hshallow).mp hf
  rw [hrelative]
  refine ⟨slashed_ne_nil hne hnames, hfile, fun hvisible => ?_⟩
  rw [passesDot_iff hne hnames hvisible, parts_slashed hne (slash_not_mem_of_named hnames)]

theorem filter_visible_iff {all : List Found}
    (h : ∀ f ∈ all, isHidden f.relative = false →
      passesDot f.relative = (parts f.relative).dropLast.any slips) :
    all.filter (fun f => !isHidden f.relative && !passesDot f.relative) =
        all.filter (fun f => !isHidden f.relative) ↔
      ∀ f ∈ all, isHidden f.relative = false → (parts f.relative).dropLast.any slips = false := by
  constructor
  · intro hsame f hf hvisible
    have hkept : f ∈ all.filter fun f => !isHidden f.relative := List.mem_filter.mpr ⟨hf, by simp [hvisible]⟩
    rw [← hsame, List.mem_filter, Bool.and_eq_true, Bool.not_eq_true', Bool.not_eq_true'] at hkept
    rw [← h f hf hvisible, hkept.2.2]
  · intro hplain
    refine List.filter_congr fun f hf => ?_
    cases hvisible : isHidden f.relative with
    | true => rfl
    | false =>
        rw [h f hf hvisible, hplain f hf hvisible]
        rfl

theorem directory_visited (ht : t.isWellNamed = true) (hplaces : (t.entries.map Prod.fst).Nodup)
    (hcurrent : isAbsolute current = true) (hdir : t.isDir (absolute current given) = true) :
    let path := absolute current given
    ∃ all warnings, Tour t [(path, [])] all ∧ (all.map Found.relative).Nodup ∧
      (∀ f, f ∈ all ↔ ∃ names, names ≠ [] ∧ (∀ x ∈ names, isName x = true) ∧ f.relative = slashed names ∧
        f.path = join path f.relative ∧ t.isFile f.path = true) ∧
      walk t path = all.filter (fun f => !isHidden f.relative && !passesDot f.relative) ∧
      Reads t (walk t path) (readPaths t current [given]).value warnings ∧
      (readPaths t current [given]).entries = warnings ++ [readNote (readPaths t current [given]).value.length] ∧
      (walk t path = all.filter (fun f => !isHidden f.relative) ↔
        ∀ f ∈ all, isHidden f.relative = false → (parts f.relative).dropLast.any slips = false) := by
  intro path
  obtain ⟨k, up, h, hpath⟩ := exists_rooted_absolute hcurrent given
  obtain ⟨hvalue, hentries⟩ := readPaths_of_dir hdir
  have hpath' : path = rootedAt k up := hpath
  rw [hpath] at hdir hvalue hentries
  have hshallow := shallow_maxDepth ht h hdir
  have hwalk := walk_eq_filter ht h
  rw [hpath']
  refine ⟨everyFile t maxDepth (rootedAt k up) [], _, ?_, ?_, fun f => mem_everyFile_maxDepth ht h hshallow, hwalk,
    ?_, hentries, ?_⟩
  · simpa using tour_everyFile hshallow [] .done
  · have hnodup : ((everyFile t maxDepth (rootedAt k up) (slashed [])).map fun f => parts f.relative).Nodup :=
      parts_everyFile_nodup ht hplaces h (List.forall_mem_nil _)
    rw [slashed_nil, ← Function.comp_def, ← List.map_map] at hnodup
    exact hnodup.of_map _
  · rw [hvalue]
    refine reads_readAll fun f hf => ?_
    rw [hwalk, List.mem_filter] at hf
    obtain ⟨hne, hfile, -⟩ := visible_of_mem ht h hshallow hf.1
    exact ⟨hfile, hne⟩
  · rw [hwalk]
    exact filter_visible_iff fun f hf => (visible_of_mem ht h hshallow hf).2.2

section TwoTexts

def textAt (dir : Text) : Found :=
  { path := join (join [ch '/', 'w'] dir) "x.txt".toText, relative := join dir "x.txt".toText }

def twoTexts (a b : Text) : Tree :=
  { entries := [([[ch 'w']], .dir), ([[ch 'w'], a], .dir), ([[ch 'w'], b], .dir),
      ([[ch 'w'], a, "x.txt".toText], .file .empty), ([[ch 'w'], b, "x.txt".toText], .file .empty)] }

def git : Text := ".git".toText

def slip : Text := ".\\a".toText

def source : Text := "src".toText

theorem rooted_w : Rooted 1 [[ch 'w']] := ⟨.inl rfl, by decide⟩

theorem directory_visited_without_git :
    walk (twoTexts git source) [ch '/', 'w'] =
      [textAt git, textAt source].filter (fun f => !isHidden f.relative) := by
  have hpath : absolute [ch '/'] [ch 'w'] = [ch '/', 'w'] := by cbv
  obtain ⟨all, warnings, htour, -, -, -, -, -, hiff⟩ := directory_visited (t := twoTexts git source)
    (by decide) (by decide) rfl (by rw [hpath]; cbv)
  have hall : everyFile (twoTexts git source) maxDepth [ch '/', 'w'] [] =
      [textAt git, textAt source] := by cbv
  have htour' := tour_everyFile (shallow_maxDepth (t := twoTexts git source) (by decide) rooted_w (by cbv)) [] .done
  rw [List.append_nil] at htour'
  rw [hpath] at htour hiff
  obtain rfl := htour.unique (hall ▸ htour')
  exact hiff.mpr (by decide)

theorem not_visited_behind_backslash :
    let t := twoTexts slip source
    t.isWellNamed = true ∧ (t.entries.map Prod.fst).Nodup ∧ t.isDir (absolute [ch '/'] [ch 'w']) = true ∧
      Tour t [([ch '/', 'w'], [])] [textAt slip, textAt source] ∧
      isHidden (textAt slip).relative = false ∧ walk t [ch '/', 'w'] = [textAt source] ∧
      (readPaths t [ch '/'] [[ch 'w']]).value.map FileInfo.relative = [(textAt source).relative] := by
  intro t
  have hpath : absolute [ch '/'] [ch 'w'] = [ch '/', 'w'] := by cbv
  have hdir : t.isDir [ch '/', 'w'] = true := by cbv
  have hall : everyFile t maxDepth [ch '/', 'w'] [] = [textAt slip, textAt source] := by cbv
  have hwalk : walk t [ch '/', 'w'] = [textAt source] := by cbv
  have hvalue := (readPaths_of_dir (t := t) (hpath ▸ hdir)).1
  rw [hpath, hwalk] at hvalue
  rw [hpath, hvalue]
  have htour := tour_everyFile (shallow_maxDepth (by decide) rooted_w hdir) [] .done
  rw [List.append_nil] at htour
  refine ⟨by decide, by decide, hdir, hall ▸ htour, by decide, hwalk, ?_⟩
  cbv

end TwoTexts

end Directory

end CodeCompaction.Discovery
