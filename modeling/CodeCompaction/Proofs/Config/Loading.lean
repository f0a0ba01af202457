import CodeCompaction.Proofs.Config.Saving
import CodeCompaction.Proofs.Json.Grammar

namespace CodeCompaction.Config

open CodeCompaction.Json CodeCompaction.Text CodeCompaction.FileTree

def textOf? (bytes : ByteArray) : Option Text := (decode? bytes).map unifyBreaks

def HoldsObject (bytes : ByteArray) (ms : Draft) : Prop :=
  ∃ text, textOf? bytes = some text ∧ Spells true (.obj ms) (tokens text)

def NestsTooDeep (limit : NestingLimit) (bytes : ByteArray) : Prop :=
  ∃ text, textOf? bytes = some text ∧ TooDeep limit true (tokens text)

/-- The values of an object stand over the defaults; from anything else come the defaults, with a warning. -/
structure FallsBack (bytes : ByteArray) (l : Logged Draft) : Prop where
  names : l.value.map Prod.fst = names
  held : ∀ ms, HoldsObject bytes ms → l.entries = [] ∧
    ∀ e ∈ defaults.draft, l.value.lookup e.1 = some ((ms.lookup e.1).getD e.2)
  fallback : (∀ ms, ¬ HoldsObject bytes ms) → l.value = defaults.draft ∧
    ∃ message, l.entries = [note Log.warning message]

variable {limit : NestingLimit}

section Content

variable {bytes : ByteArray} {text : Text} {ms : Draft}

theorem lookup_overDefaults (ms : Draft) :
    ∀ e ∈ defaults.draft, (overDefaults ms).lookup e.1 = some ((ms.lookup e.1).getD e.2) := by
  intro e he
  simp only [Settings.draft, List.mem_cons, List.not_mem_nil, or_false] at he
  rcases he with rfl | rfl | rfl | rfl | rfl | rfl <;> rfl

theorem holdsObject_iff (htext : textOf? bytes = some text) (hdeep : ¬ TooDeep limit true (tokens text)) :
    HoldsObject bytes ms ↔ parse limit true text = .ok (.obj ms) := by
  rw [parse_eq_ok_iff]
  constructor
  · rintro ⟨text', htext', hspells⟩
    obtain rfl := Option.some.inj (htext.symm.trans htext')
    exact ⟨hspells, hdeep⟩
  · rintro ⟨hspells, -⟩
    exact ⟨text, htext, hspells⟩

theorem nestsTooDeep_iff (htext : textOf? bytes = some text) :
    NestsTooDeep limit bytes ↔ TooDeep limit true (tokens text) := by
  constructor
  · rintro ⟨text', htext', hdeep⟩
    rwa [Option.some.inj (htext.symm.trans htext')]
  · exact fun hdeep => ⟨text, htext, hdeep⟩

theorem ofContent_eq_error_iff : (∃ f, ofContent limit text = .error f) ↔ TooDeep limit true (tokens text) := by
  rw [← parse_tooDeep_iff]
  constructor
  · rintro ⟨f, h⟩
    rw [ofContent] at h
    split at h
    · rename_i c hparse
      exact ⟨c, hparse⟩
    all_goals cases h
  · rintro ⟨c, hparse⟩
    exact ⟨tooDeepError c, by rw [ofContent, hparse]⟩

theorem fallsBack_of_no_object (h : ∀ ms, ¬ HoldsObject bytes ms) (message : Text) :
    FallsBack bytes { value := defaults.draft, entries := [note Log.warning message] } where
  names := rfl
  held ms hms := absurd hms (h ms)
  fallback _ := ⟨rfl, message, rfl⟩

theorem fallsBack_of_ofContent {out : LoadOutcome} (htext : textOf? bytes = some text)
    (hout : ofContent limit text = .ok out) (given : Text) :
    FallsBack bytes { value := out.draft, entries := out.entries given } := by
  have hdeep : ¬ TooDeep limit true (tokens text) := by
    rw [← ofContent_eq_error_iff, hout]
    simp
  have hobject : ∀ ms, HoldsObject bytes ms ↔ parse limit true text = .ok (.obj ms) :=
    fun ms => holdsObject_iff htext hdeep
  rw [ofContent] at hout
  split at hout
  · cases hout
  · rename_i hparse
    obtain rfl := Except.ok.inj hout
    exact fallsBack_of_no_object (fun ms hms => by simp [hobject, hparse] at hms) _
  · rename_i ms hparse
    obtain rfl := Except.ok.inj hout
    refine ⟨rfl, fun ms' hms' => ⟨rfl, ?_⟩, fun hnone => absurd ((hobject ms).mpr hparse) (hnone ms)⟩
    rw [hobject, hparse] at hms'
    cases hms'
    exact lookup_overDefaults ms
  · rename_i v hne hparse
    obtain rfl := Except.ok.inj hout
    refine fallsBack_of_no_object (fun ms hms => ?_) _
    rw [hobject, hparse] at hms
    exact hne ms (Except.ok.inj hms)

end Content

section File

variable {t : Tree} {current given path : Text} {bytes : ByteArray}

theorem loadOutcome_of_read (h : t.read path = .ok bytes) : loadOutcome limit t path =
    (textOf? bytes).elim (.ok (.unusable Discovery.undecodable)) (ofContent limit) := by
  rw [loadOutcome, Tree.contains_of_read h, textOf?]
  simp only [h, Bool.not_true, Bool.false_eq_true, if_false]
  cases decode? bytes <;> rfl

theorem load_eq_error_iff : (∃ f, load limit t current given = .error f) ↔
    ∃ bytes, t.read (seenFrom current given) = .ok bytes ∧ NestsTooDeep limit bytes := by
  have hload : (∃ f, load limit t current given = .error f) ↔
      ∃ f, loadOutcome limit t (seenFrom current given) = .error f := by
    rw [load]
    cases loadOutcome limit t (seenFrom current given) <;> simp [bind, Except.bind]
  rw [hload]
  cases hread : t.read (seenFrom current given) with
  | error f =>
      simp only [loadOutcome, hread]
      split <;> simp
  | ok bytes =>
      rw [loadOutcome_of_read hread]
      cases htext : textOf? bytes with
      | none => simp [NestsTooDeep, htext]
      | some text =>
          have hfails : (∃ f, ofContent limit text = .error f) ↔ TooDeep limit true (tokens text) :=
            ofContent_eq_error_iff
          simpa [nestsTooDeep_iff htext] using hfails

theorem load_falls_back_iff (limit : NestingLimit) (t : Tree) (current given : Text) :
    ((∃ f, load limit t current given = .error f) ↔
      ∃ bytes, t.read (seenFrom current given) = .ok bytes ∧ NestsTooDeep limit bytes) ∧
    ∀ bytes, t.read (seenFrom current given) = .ok bytes →
      ((∃ l, load limit t current given = .ok l ∧ FallsBack bytes l) ↔ ¬ NestsTooDeep limit bytes) := by
  refine ⟨load_eq_error_iff, fun bytes hread => ?_⟩
  constructor
  · rintro ⟨l, hl, -⟩ hdeep
    obtain ⟨f, hf⟩ := load_eq_error_iff.mpr ⟨bytes, hread, hdeep⟩
    rw [hl] at hf
    cases hf
  · intro hdeep
    rw [load, loadOutcome_of_read hread]
    cases htext : textOf? bytes with
    | none =>
        have hnone : ∀ ms, ¬ HoldsObject bytes ms := by simp [HoldsObject, htext]
        exact ⟨_, rfl, fallsBack_of_no_object hnone _⟩
    | some text =>
        rw [nestsTooDeep_iff htext, ← ofContent_eq_error_iff] at hdeep
        rw [Option.elim_some]
        cases hout : ofContent limit text with
        | error f => exact absurd ⟨f, hout⟩ hdeep
        | ok out => exact ⟨_, rfl, fallsBack_of_ofContent htext hout given⟩

end File

section Odd

def configName : Text := "c.json".toText

def treeOf (text : Text) : Tree := { entries := [([configName], .file (encode text))] }

theorem read_treeOf (text : Text) :
    (treeOf text).read (seenFrom "/".toText configName) = .ok (encode text) :=
  Tree.read_eq_ok_iff.mpr ⟨[configName], by cbv, rfl⟩

theorem textOf?_encode {text : Text} (hscalar : text.isScalar = true) (h : ch '\r' ∉ text) :
    textOf? (encode text) = some text := by
  have hbreaks := unifyBreaks_append h []
  rw [List.append_nil] at hbreaks
  rw [textOf?, decode?_encode hscalar, Option.map_some, hbreaks, unifyBreaks, List.append_nil]

theorem nestsTooDeep_openings {n : Nat} (h : limit.levels < n) :
    NestsTooDeep limit (encode (List.replicate n (ch '['))) := by
  have hreturn : ch '\r' ∉ List.replicate n (ch '[') := by simp
  have hscalar : Text.isScalar (List.replicate n (ch '[')) = true := by simp [Text.isScalar, CodePoint.isLone]
  refine ⟨_, textOf?_encode hscalar hreturn, ?_⟩
  rw [tokens_openings]
  exact tooDeep_of_openings h

def oddObject : Draft := [(modeName, .arr [.arr []]), ("x".toText, .int 1)]

theorem load_falls_back_with_odd_mode :
    let text := "\x7b\"mode\":[[]],\"x\":1\x7d".toText
    ∃ l, load .usual (treeOf text) "/".toText configName = .ok l ∧ l.entries = [] ∧
      l.value.lookup modeName = some (.arr [.arr []]) ∧
      l.value.lookup countTokensName = some (.bool true) := by
  intro text
  have hcompact : compact (.obj oddObject) = text := by decide
  have hparse : parse .usual true text = .ok (.obj oddObject) := by
    rw [← hcompact]
    exact parse_compact (by decide) (by decide)
  obtain ⟨hspells, hdeep⟩ := parse_eq_ok_iff.mp hparse
  have htext : textOf? (encode text) = some text := textOf?_encode (by decide) (by decide)
  rw [← nestsTooDeep_iff htext] at hdeep
  obtain ⟨l, hl, hfalls⟩ :=
    ((load_falls_back_iff .usual (treeOf text) "/".toText configName).2 _ (read_treeOf text)).mpr hdeep
  obtain ⟨hquiet, hvalues⟩ := hfalls.held oddObject ⟨text, htext, hspells⟩
  refine ⟨l, hl, hquiet, ?_, ?_⟩
  · exact hvalues (modeName, .ofString defaults.mode.tag) (by simp [Settings.draft])
  · exact hvalues (countTokensName, .bool true) (by simp [Settings.draft, defaults])

theorem not_ok_load_openings {n : Nat} (h : limit.levels < n) :
    ¬ ∃ l, load limit (treeOf (List.replicate n (ch '['))) "/".toText configName = .ok l := by
  rintro ⟨l, hl⟩
  obtain ⟨f, hf⟩ := load_eq_error_iff.mpr ⟨_, read_treeOf _, nestsTooDeep_openings h⟩
  exact absurd (hl.symm.trans hf) (by simp)

theorem not_loaded_when_nested :
    (treeOf (List.replicate 100000 (ch '['))).read (seenFrom "/".toText configName) =
        .ok (encode (List.replicate 100000 (ch '['))) ∧
      ¬ ∃ l, load .usual (treeOf (List.replicate 100000 (ch '['))) "/".toText configName = .ok l :=
  ⟨read_treeOf _, not_ok_load_openings (by decide)⟩

end Odd

end CodeCompaction.Config
