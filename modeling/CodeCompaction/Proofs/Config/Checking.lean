import CodeCompaction.Proofs.Config.Saving
import CodeCompaction.Proofs.Text.Size

namespace CodeCompaction.Text

variable {t : Text} {c : CodePoint}

theorem length_strip_lt_of_head (h : t.head? = some c) (hc : isBlank c = true) :
    (strip t).length < t.length := by
  obtain ⟨t, rfl⟩ := List.head?_eq_some_iff.mp h
  rw [strip_blank_cons hc]
  exact Nat.lt_succ_of_le (strip_sublist t).length_le

theorem length_strip_lt_of_getLast (h : t.getLast? = some c) (hc : isBlank c = true) :
    (strip t).length < t.length := by
  obtain ⟨t, rfl⟩ := List.getLast?_eq_some_iff.mp h
  rw [strip_append_blank (by simpa using hc), List.length_append, List.length_singleton]
  exact Nat.lt_succ_of_le (strip_sublist t).length_le

def Bare (t : Text) : Prop :=
  (∀ c, t.head? = some c → isBlank c = false) ∧ ∀ c, t.getLast? = some c → isBlank c = false

theorem bare_of_strip_eq (h : strip t = t) : Bare t := by
  have hlen : ¬ (strip t).length < t.length := by
    rw [h]
    exact Nat.lt_irrefl _
  constructor
  · intro c hc
    rw [Bool.eq_false_iff]
    exact fun hblank => hlen (length_strip_lt_of_head hc hblank)
  · intro c hc
    rw [Bool.eq_false_iff]
    exact fun hblank => hlen (length_strip_lt_of_getLast hc hblank)

end CodeCompaction.Text

namespace CodeCompaction.Config

open CodeCompaction.Json CodeCompaction.Text

structure Clean (d : Draft) : Prop where
  names_eq : d.map Prod.fst = names
  mode : ∃ m ∈ Mode.all, d.lookup modeName = some (.ofString m.tag)
  countTokens : ∃ b, d.lookup countTokensName = some (.bool b)
  logLevel : ∃ l ∈ Log.LevelName.all, d.lookup logLevelName = some (.ofString l.name)
  texts : ∀ n ∈ [outputDirName, outputSuffixName, logFileName], ∃ t, d.lookup n = some (.str t) ∧ Bare t

theorem Settings.Stripped.clean {c : Settings} (h : c.Stripped) : Clean c.draft where
  names_eq := names_draft c
  mode := ⟨c.mode, by cases c.mode <;> decide, rfl⟩
  countTokens := ⟨c.countTokens, rfl⟩
  logLevel := ⟨c.logLevel, by cases c.logLevel <;> decide, rfl⟩
  texts := by
    simp only [List.forall_mem_cons, List.not_mem_nil, false_implies, implies_true, and_true]
    exact ⟨⟨c.outputDir, rfl, bare_of_strip_eq h.outputDir⟩,
      ⟨c.outputSuffix, rfl, bare_of_strip_eq h.outputSuffix⟩,
      ⟨c.logFile, rfl, bare_of_strip_eq h.logFile⟩⟩

theorem stripped_check (v : Value) : (check v).value.Stripped := by
  cases v with
  | obj d => exact stripped_checkDraft d
  | _ => exact ⟨rfl, rfl, rfl⟩

section Meaning

variable {d : Draft} {t : Text}

theorem value_modeField_str (t : Text) : (modeField (.str t)).value = Mode.ofTag t := by
  simp only [modeField, textField, Checked.value_bind, Checked.value_pure, Mode.ofTag]
  cases Mode.ofExactTag? (lower (strip t)) <;> rfl

theorem level_levelField_str (t : Text) : (levelField (.str t)).value.level = Log.levelOf t := by
  simp only [levelField, textField, Checked.value_bind, Checked.value_pure, Log.levelOf]
  cases Log.LevelName.ofExactText? (upper (strip t)) <;> rfl

theorem ofTag_tag (m : Mode) : Mode.ofTag m.tag.toText = m := by
  rw [← value_modeField_str]
  exact congrArg Checked.value (modeField_tag m)

theorem levelOf_name (l : Log.LevelName) : Log.levelOf l.name.toText = l.level := by
  rw [← level_levelField_str]
  exact congrArg (fun x => x.value.level) (levelField_name l)

theorem mode_checkDraft (h : d.lookup modeName = some (.str t)) :
    (checkDraft d).value.mode = Mode.ofTag t := by
  have hmode : (checkDraft d).value.mode = (modeField ((d.lookup modeName).getD _)).value := rfl
  rw [hmode, h, Option.getD_some, value_modeField_str]

theorem level_checkDraft (h : d.lookup logLevelName = some (.str t)) :
    (checkDraft d).value.logLevel.level = Log.levelOf t := by
  have hlevel : (checkDraft d).value.logLevel = (levelField ((d.lookup logLevelName).getD _)).value := rfl
  rw [hlevel, h, Option.getD_some, level_levelField_str]

end Meaning

theorem check_cleans (v : Value) :
    Clean (check v).value.draft ∧
    check (.obj (check v).value.draft) = { value := (check v).value, warnings := [] } ∧
    ∀ d, v = .obj d →
      (∀ t, d.lookup modeName = some (.str t) → ∃ u, (check v).value.draft.lookup modeName = some (.str u) ∧
        Mode.ofTag u = Mode.ofTag t) ∧
      ∀ t, d.lookup logLevelName = some (.str t) →
        ∃ u, (check v).value.draft.lookup logLevelName = some (.str u) ∧ Log.levelOf u = Log.levelOf t := by
  refine ⟨(stripped_check v).clean, checkDraft_draft (stripped_check v), ?_⟩
  rintro d rfl
  refine ⟨fun t ht => ⟨_, rfl, ?_⟩, fun t ht => ⟨_, rfl, ?_⟩⟩
  · rw [ofTag_tag]
    exact mode_checkDraft ht
  · rw [levelOf_name]
    exact level_checkDraft ht

theorem check_cleans_of_texts : ∃ d : Draft,
    d.lookup modeName = some (.str "\u2003MiniFy\n".toText) ∧
    d.lookup logLevelName = some (.str "crıtıcal\x1c".toText) ∧
    (∃ u, (check (.obj d)).value.draft.lookup modeName = some (.str u) ∧ Mode.ofTag u = .minify) ∧
    ∃ u, (check (.obj d)).value.draft.lookup logLevelName = some (.str u) ∧ Log.levelOf u = Log.critical := by
  let d : Draft := [(logLevelName, .str "crıtıcal\x1c".toText), ("other".toText, .null), (logFileName, .arr []),
    (modeName, .str "\u2003MiniFy\n".toText)]
  have hmode : d.lookup modeName = some (.str "\u2003MiniFy\n".toText) := rfl
  have hlevel : d.lookup logLevelName = some (.str "crıtıcal\x1c".toText) := rfl
  obtain ⟨hsameMode, hsameLevel⟩ := (check_cleans (.obj d)).2.2 d rfl
  obtain ⟨u, hu, hread⟩ := hsameMode _ hmode
  obtain ⟨u', hu', hread'⟩ := hsameLevel _ hlevel
  exact ⟨d, hmode, hlevel, ⟨u, hu, hread.trans (by decide)⟩, u', hu', hread'.trans (by decide)⟩

end CodeCompaction.Config
