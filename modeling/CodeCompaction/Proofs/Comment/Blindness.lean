import CodeCompaction.Comment.Grammar
import CodeCompaction.Proofs.Literal.Scanning

namespace CodeCompaction.Comment

open CodeCompaction.Text CodeCompaction.Literal

def Uniform (p : Text → Option Nat) (σ : List Slot) : Prop :=
  (∀ e, Hides e → p (fill e σ) = none) ∨
    ∃ σ₁ σ₂, σ = σ₁ ++ σ₂ ∧ ∀ e, Hides e → p (fill e σ) = some (fill e σ₁).length

theorem Uniform.extend {p p' : Text → Option Nat} {α σ : List Slot} (h : Uniform p σ)
    (hp : ∀ e, Hides e →
      p' (fill e α ++ fill e σ) = (p (fill e σ)).map (· + (fill e α).length)) :
    Uniform p' (α ++ σ) := by
  rcases h with hnone | ⟨σ₁, σ₂, rfl, hsome⟩
  · refine .inl (fun e he => ?_)
    rw [fill_append, hp e he, hnone e he, Option.map_none]
  · refine .inr ⟨α ++ σ₁, σ₂, (List.append_assoc ..).symm, fun e he => ?_⟩
    rw [fill_append, hp e he, hsome e he, Option.map_some, fill_append, List.length_append,
      Nat.add_comm]

theorem uniform_behind {opener : Text} {body : Text → Option Nat} (ho : isVisible opener = true)
    (hb : ∀ τ, Uniform body τ) (σ : List Slot) : Uniform (fun t => behind opener t body) σ := by
  have hprefix (e : Nat → Text) (he : Hides e) :=
    isPrefixOf_fill (fun _ hc => not_mem_of_isVisible ho hc) he σ
  cases h : (ofText opener).isPrefixOf σ with
  | false => exact .inl (fun e he => by simp [behind, hprefix e he, h])
  | true =>
      obtain ⟨τ, rfl⟩ := exists_append_of_isPrefixOf h
      refine (hb τ).extend (fun e he => ?_)
      have := hprefix e he
      rw [fill_append, fill_ofText, h] at this
      rw [fill_ofText, behind, if_pos this, List.drop_left]

theorem throughCloser_hidden {closer w : Text} (hc : isVisible closer = true)
    (hw : ∀ c ∈ w, c ∈ placeholderAlphabet) (t : Text) :
    throughCloser closer (w ++ t) = (throughCloser closer t).map (· + w.length) := by
  induction w with
  | nil => simp
  | cons c w ih =>
      have hp : closer.isPrefixOf (c :: (w ++ t)) = false :=
        isPrefixOf_hidden_cons hc (.inl (hw c (List.mem_cons_self ..)))
      rw [List.cons_append, throughCloser, if_neg (by simp [hp]),
        ih (fun d hd => hw d (List.mem_cons_of_mem _ hd))]
      cases throughCloser closer t <;> simp [Nat.add_assoc]

theorem uniform_throughCloser {closer : Text} (hc : isVisible closer = true) (σ : List Slot) :
    Uniform (throughCloser closer) σ := by
  induction σ with
  | nil =>
      refine .inl (fun e _ => ?_)
      simp [throughCloser, ne_nil_of_isVisible hc]
  | cons s σ ih =>
      have hprefix (e : Nat → Text) (he : Hides e) :=
        isPrefixOf_fill (fun _ h => not_mem_of_isVisible hc h) he (s :: σ)
      cases s with
      | hole i => exact ih.extend (α := [.hole i]) (fun e he => by
          simpa using throughCloser_hidden hc (he i).2 (fill e σ))
      | char c =>
          cases h : (ofText closer).isPrefixOf (.char c :: σ) with
          | false =>
              refine ih.extend (α := [.char c]) (fun e he => ?_)
              have := hprefix e he
              rw [h, fill_char] at this
              simp [throughCloser, this]
          | true =>
              obtain ⟨τ, hτ⟩ := exists_append_of_isPrefixOf h
              refine .inr ⟨ofText closer, τ, hτ, fun e he => ?_⟩
              have := hprefix e he
              rw [h, fill_char] at this
              rw [fill_char, throughCloser, if_pos this, fill_ofText]

theorem star_not_hidden : ch '*' ∉ placeholderAlphabet := by decide

theorem slash_not_hidden : ch '/' ∉ placeholderAlphabet := by decide

theorem starBody_hidden {w : Text} (hw : ∀ c ∈ w, c ∈ placeholderAlphabet) (t : Text) :
    starBody (w ++ t) = (starBody t).map (· + w.length) := by
  induction w with
  | nil => simp
  | cons c w ih =>
      have hc : (c == '*') = false := beq_false_of_ne (fun heq =>
        star_not_hidden (heq ▸ hw c (List.mem_cons_self ..)))
      rw [List.cons_append, starBody, hc, ih (fun d hd => hw d (List.mem_cons_of_mem _ hd))]
      cases starBody t <;> simp [Nat.add_assoc]

theorem starRun_hidden {w : Text} (hne : w ≠ []) (hw : ∀ c ∈ w, c ∈ placeholderAlphabet)
    (t : Text) : starRun (w ++ t) = (starBody t).map (· + w.length) := by
  cases w with
  | nil => exact absurd rfl hne
  | cons c w =>
      have hmem := hw c (List.mem_cons_self ..)
      have hstar : (c == '*') = false := beq_false_of_ne (fun heq => star_not_hidden (heq ▸ hmem))
      have hslash : (c == '/') = false := beq_false_of_ne (fun heq => slash_not_hidden (heq ▸ hmem))
      rw [List.cons_append, starRun, hstar, hslash,
        starBody_hidden (fun d hd => hw d (List.mem_cons_of_mem _ hd))]
      cases starBody t <;> simp [Nat.add_assoc]

theorem uniform_star (σ : List Slot) : Uniform starBody σ ∧ Uniform starRun σ := by
  induction σ with
  | nil => exact ⟨.inl (fun _ _ => rfl), .inl (fun _ _ => rfl)⟩
  | cons s σ ih =>
      obtain ⟨hbody, hrun⟩ := ih
      cases s with
      | hole i =>
          constructor
          · exact hbody.extend (α := [.hole i]) (fun e he => by
              simpa using starBody_hidden (he i).2 (fill e σ))
          · exact hbody.extend (α := [.hole i]) (fun e he => by
              simpa using starRun_hidden (he i).1 (he i).2 (fill e σ))
      | char c =>
          constructor
          · cases hc : c == '*' with
            | true => exact hrun.extend (α := [.char c]) (fun e _ => by simp [starBody, hc])
            | false => exact hbody.extend (α := [.char c]) (fun e _ => by simp [starBody, hc])
          · cases hs : c == '/' with
            | true => exact .inr ⟨[.char c], σ, rfl, fun e _ => by simp [starRun, hs]⟩
            | false =>
                cases hc : c == '*' with
                | true => exact hrun.extend (α := [.char c]) (fun e _ => by simp [starRun, hs, hc])
                | false => exact hbody.extend (α := [.char c]) (fun e _ => by simp [starRun, hs, hc])

theorem isVisible_of_equals {level : Text} (h : ∀ c ∈ level, c = '=') {a b : Text}
    (hab : isVisible (a ++ b) = true) : isVisible (a ++ level ++ b) = true := by
  have heq : (!placeholderAlphabet.contains '=' && '=' != '\n') = true := by decide
  simp only [isVisible, Bool.and_eq_true, List.all_append, Bool.not_eq_true', List.isEmpty_eq_false_iff,
    ne_eq, List.append_eq_nil_iff, not_and] at hab ⊢
  refine ⟨fun hal hb => hab.1 hal.1 hb, ⟨hab.2.1, ?_⟩, hab.2.2⟩
  rw [List.all_eq_true]
  intro c hc
  rw [h c hc]
  exact heq

theorem uniform_leveledBody (σ : List Slot) : Uniform leveledBody σ := by
  obtain ⟨level, hlevel, hall⟩ := exists_text_takeWhile (· == '=') σ
  have hq : ∀ c ∈ placeholderAlphabet, (c == '=') = false := eq_of_hidden (by decide)
  have hopen : isVisible (level ++ [ch '[']) = true :=
    isVisible_of_equals (a := []) (by simpa using hall) (by decide)
  have hclose : isVisible ([ch ']'] ++ level ++ [ch ']']) = true :=
    isVisible_of_equals (by simpa using hall) (by decide)
  have hscan (e : Nat → Text) (he : Hides e) : leveledBody (fill e σ) =
      behind (level ++ [ch '[']) (fill e σ) (throughCloser ([ch ']'] ++ level ++ [ch ']'])) := by
    rw [leveledBody, takeWhile_fill hq he, hlevel, fill_ofText]
  rcases uniform_behind hopen (uniform_throughCloser hclose) σ with hnone | ⟨σ₁, σ₂, rfl, hsome⟩
  · exact .inl (fun e he => (hscan e he).trans (hnone e he))
  · exact .inr ⟨σ₁, σ₂, rfl, fun e he => (hscan e he).trans (hsome e he)⟩

theorem uniform_barredBody {bar : CodePoint} {closer : Text} (hb : isVisible [bar] = true)
    (hc : isVisible closer = true) (σ : List Slot) : Uniform (barredBody bar closer) σ := by
  have hq : ∀ c ∈ placeholderAlphabet, (c != bar) = true := by
    intro c hmem
    rw [bne_iff_ne]
    rintro rfl
    exact not_mem_of_isVisible hb (List.mem_singleton.mpr rfl) hmem
  have hsplit := List.takeWhile_append_dropWhile (p := Slot.test (· != bar) true) (l := σ)
  generalize hρ : σ.takeWhile (Slot.test (· != bar) true) = ρ at hsplit
  generalize σ.dropWhile (Slot.test (· != bar) true) = τ at hsplit
  have hscan (e : Nat → Text) (he : Hides e) : barredBody bar closer (fill e σ) =
      if (ofText closer).isPrefixOf τ then some ((fill e ρ).length + closer.length) else none := by
    have hdrop : (fill e σ).drop (fill e ρ).length = fill e τ := by
      rw [← hsplit, fill_append, List.drop_left]
    simp only [barredBody, takeWhile_fill hq he, hρ, hdrop,
      isPrefixOf_fill (fun _ h => not_mem_of_isVisible hc h) he]
  cases h : (ofText closer).isPrefixOf τ with
  | false => exact .inl (fun e he => by rw [hscan e he, h]; rfl)
  | true =>
      obtain ⟨τ', hτ'⟩ := exists_append_of_isPrefixOf h
      refine .inr ⟨ρ ++ ofText closer, τ', ?_, fun e he => ?_⟩
      · rw [← hsplit, hτ', List.append_assoc]
      · rw [hscan e he, h, if_pos rfl, fill_append, fill_ofText, List.length_append]

structure Blind (p : Pattern) : Prop where
  flagless : p.Flagless
  positive : ∀ t, p true t ≠ some 0
  start : ∀ c t, c ∈ placeholderAlphabet ∨ c = '\n' → p true (c :: t) = none
  uniform : ∀ σ, Uniform (p true) σ

theorem blind_behind {opener : Text} {body : Text → Option Nat} (ho : isVisible opener = true)
    (hb : ∀ τ, Uniform body τ) : Blind (fun _ t => behind opener t body) where
  flagless := fun _ _ => rfl
  positive := by
    intro t ht
    have hpos := List.length_pos_iff.mpr (ne_nil_of_isVisible ho)
    simp only [behind] at ht
    split at ht
    · obtain ⟨n, -, hn⟩ := Option.map_eq_some_iff.mp ht
      omega
    · simp at ht
  start := by
    intro c t hc
    simp only [behind]
    rw [if_neg (by simp [isPrefixOf_hidden_cons ho hc])]
  uniform := uniform_behind ho hb

theorem uniform_or {p p' : Text → Option Nat} {σ : List Slot} (h : Uniform p σ)
    (h' : Uniform p' σ) : Uniform (fun t => (p t).or (p' t)) σ := by
  rcases h with hnone | ⟨σ₁, σ₂, hσ, hsome⟩
  · rcases h' with hnone' | ⟨σ₁, σ₂, hσ, hsome⟩
    · exact .inl (fun e he => by simp only [hnone e he, hnone' e he, Option.or_none])
    · exact .inr ⟨σ₁, σ₂, hσ, fun e he => by simp only [hnone e he, hsome e he, Option.none_or]⟩
  · exact .inr ⟨σ₁, σ₂, hσ, fun e he => by simp only [hsome e he, Option.some_or]⟩

theorem blind_or {p p' : Text → Option Nat} (h : Blind (fun _ t => p t)) (h' : Blind (fun _ t => p' t)) :
    Blind (fun _ t => (p t).or (p' t)) where
  flagless := fun _ _ => rfl
  positive := by
    intro t ht
    rcases Option.or_eq_some_iff.mp ht with ht | ⟨-, ht⟩
    · exact h.positive t ht
    · exact h'.positive t ht
  start := by
    intro c t hc
    rw [Option.or_eq_none_iff]
    exact ⟨h.start c t hc, h'.start c t hc⟩
  uniform := fun σ => uniform_or (h.uniform σ) (h'.uniform σ)

def isVisibleBlock : BlockMark → Bool
  | .starred => true
  | .delimited opener closer => isVisible opener && isVisible closer
  | .leveled => true
  | .barred opener bar closer => isVisible opener && isVisible [bar] && isVisible closer
  | .either a b => isVisibleBlock a && isVisibleBlock b

theorem blind_block {m : BlockMark} (h : isVisibleBlock m = true) : Blind m.pattern := by
  induction m with
  | starred => exact blind_behind (by decide) (fun τ => (uniform_star τ).1)
  | delimited opener closer =>
      simp only [isVisibleBlock, Bool.and_eq_true] at h
      exact blind_behind h.1 (uniform_throughCloser h.2)
  | leveled => exact blind_behind (by decide) uniform_leveledBody
  | barred opener bar closer =>
      simp only [isVisibleBlock, Bool.and_eq_true] at h
      exact blind_behind h.1.1 (uniform_barredBody h.1.2 h.2)
  | either a b iha ihb =>
      simp only [isVisibleBlock, Bool.and_eq_true] at h
      exact blind_or (iha h.1) (ihb h.2)

def isVisibleLine : LineMark → Bool
  | .anywhere openers => openers.all isVisible
  | .lineStart _ => false

theorem opens_fill {openers : List Text} (h : openers.all isVisible = true) {e : Nat → Text}
    (he : Hides e) (σ : List Slot) :
    opens openers (fill e σ) = openers.any (fun o => (ofText o).isPrefixOf σ) := by
  induction openers with
  | nil => rfl
  | cons o os ih =>
      simp only [List.all_cons, Bool.and_eq_true] at h
      rw [opens, List.any_cons, List.any_cons, ← ih h.2, opens,
        isPrefixOf_fill (fun _ hc => not_mem_of_isVisible h.1 hc) he]

theorem opens_hidden_cons {openers : List Text} (h : openers.all isVisible = true) {c : CodePoint}
    {t : Text} (hc : c ∈ placeholderAlphabet ∨ c = '\n') : opens openers (c :: t) = false := by
  rw [opens, List.any_eq_false]
  intro o ho
  simp [isPrefixOf_hidden_cons (List.all_eq_true.mp h o ho) hc]

theorem blind_anywhere {openers : List Text} (h : openers.all isVisible = true) :
    Blind (LineMark.anywhere openers).pattern where
  flagless := fun _ _ => rfl
  positive := by
    intro t ht
    simp only [LineMark.pattern] at ht
    split at ht
    · rename_i hopen
      cases t with
      | nil =>
          obtain ⟨o, ho, hp⟩ := List.any_eq_true.mp hopen
          have hne := ne_nil_of_isVisible (List.all_eq_true.mp h o ho)
          simp [hne] at hp
      | cons c t =>
          have hc : c ≠ '\n' := by
            rintro rfl
            simp [opens_hidden_cons h (.inr rfl)] at hopen
          simp [lineLength, hc] at ht
    · simp at ht
  start := by
    intro c t hc
    simp [LineMark.pattern, opens_hidden_cons h hc]
  uniform := by
    intro σ
    have hq : ∀ c ∈ placeholderAlphabet, (c != '\n') = true := eq_of_hidden (by decide)
    cases hopen : openers.any (fun o => (ofText o).isPrefixOf σ) with
    | false => exact .inl (fun e he => by simp [LineMark.pattern, opens_fill h he, hopen])
    | true =>
        refine .inr ⟨σ.takeWhile (Slot.test (· != '\n') true),
          σ.dropWhile (Slot.test (· != '\n') true), List.takeWhile_append_dropWhile.symm, ?_⟩
        intro e he
        simp [LineMark.pattern, opens_fill h he, hopen, lineLength, takeWhile_fill hq he]

theorem blind_line {m : LineMark} (h : isVisibleLine m = true) : Blind m.pattern := by
  cases m with
  | anywhere openers => exact blind_anywhere h
  | lineStart openers => simp [isVisibleLine] at h

def isVisibleGrammar (g : Grammar) : Bool :=
  g.line?.all isVisibleLine && g.block?.all isVisibleBlock

theorem isVisibleGrammar_families :
    ∀ f ∈ families, f.2.protects = true → isVisibleGrammar f.2 = true := by
  decide

end CodeCompaction.Comment
