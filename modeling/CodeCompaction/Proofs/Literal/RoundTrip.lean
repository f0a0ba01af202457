import Mathlib
import CodeCompaction.Proofs.Literal.Placeholder

namespace CodeCompaction.Literal

open CodeCompaction.Text

def slots (triple : Bool) (t : Text) : List Slot := number 0 (split triple t)

def Shielded.literal (s : Shielded) (i : Nat) : Text := (s.spans[i]?).getD []

def Shielded.seat (s : Shielded) (r : Nat → Nat) : Nat → Text := fun j => placeholder s.mark (r j)

theorem Shielded.hides_seat (s : Shielded) (h : s.sentinel ∈ sentinels) (r : Nat → Nat) :
    Hides (s.seat r) := hides_placeholder h r

theorem split_append_of_no_quote {triple : Bool} {a : Text} (h : a.any isQuote = false) (t : Text) :
    split triple (a ++ t) = a.map .plain ++ split triple t := by
  induction a with
  | nil => rfl
  | cons c a ih =>
      simp only [List.any_cons, Bool.or_eq_false_iff] at h
      rw [List.cons_append, split, if_neg (by simp [h.1]), ih h.2, List.map_cons, List.cons_append]

theorem split_of_no_quote {triple : Bool} {t : Text} (h : t.any isQuote = false) :
    split triple t = t.map .plain := by
  have hsplit : split triple (t ++ []) = _ := split_append_of_no_quote h []
  rwa [List.append_nil, split, List.append_nil] at hsplit

theorem flatMap_text_map_plain (t : Text) : (t.map Piece.plain).flatMap Piece.text = t := by
  induction t with
  | nil => rfl
  | cons c t ih => exact congrArg (c :: ·) ih

theorem literals_map_plain (t : Text) : literals (t.map .plain) = [] := by
  induction t with
  | nil => rfl
  | cons c t ih => exact ih

theorem number_map_plain (i : Nat) (t : Text) : number i (t.map .plain) = ofText t := by
  induction t with
  | nil => rfl
  | cons c t ih => exact congrArg (.char c :: ·) ih

theorem slots_of_no_quote {triple : Bool} {t : Text} (h : t.any isQuote = false) :
    slots triple t = ofText t := by
  rw [slots, split_of_no_quote h, number_map_plain]

theorem mem_of_char_mem_slots {triple : Bool} {t : Text} {c : CodePoint}
    (h : Slot.char c ∈ slots triple t) : c ∈ t := by
  have hp := char_mem_number h
  rw [← flatMap_text_split triple t]
  exact List.mem_flatMap.mpr ⟨.plain c, hp, by simp [Piece.text]⟩

theorem not_isQuote_of_char_mem_slots {triple : Bool} {t : Text} {c : CodePoint}
    (h : Slot.char c ∈ slots triple t) : isQuote c = false := by
  have hp := char_mem_number h
  clear h
  fun_induction split triple t with
  | case1 => simp at hp
  | case2 d cs hd n ih => exact ih (by simpa using hp)
  | case3 d cs hd ih =>
      rcases List.mem_cons.mp hp with heq | hp
      · obtain rfl := Piece.plain.inj heq
        simpa using hd
      · exact ih hp

structure Shields (triple : Bool) (t : Text) (s : Shielded) : Prop where
  sentinel_mem : s.sentinel ∈ sentinels
  text_eq : s.text = fill (placeholder s.mark) (slots triple t)
  spans_eq : s.spans = (literals (split triple t)).toArray
  absent : s.spans = #[] ∨ s.sentinel ∉ t

theorem shields_shieldWith {triple : Bool} {t : Text} {c : CodePoint} (hc : c ∈ sentinels) (hfree : c ∉ t) :
    Shields triple t (shieldWith c triple t) :=
  ⟨hc, renderFrom_eq_fill _ _ _, rfl, .inr hfree⟩

theorem shields_of_shield? {triple : Bool} {t : Text} {s : Shielded} (h : shield? triple t = some s) :
    Shields triple t s := by
  rw [shield?] at h
  split at h
  · obtain ⟨c, hc, rfl⟩ := Option.map_eq_some_iff.mp h
    exact shields_shieldWith (List.mem_of_find?_eq_some hc) (not_mem_of_chooseSentinel? hc)
  · rename_i hq
    obtain rfl := Option.some.inj h
    rw [Bool.not_eq_true] at hq
    have hmem : defaultSentinel ∈ sentinels := by decide
    refine ⟨hmem, ?_, ?_, .inl rfl⟩
    · rw [slots_of_no_quote hq, fill_ofText]
    · rw [split_of_no_quote hq, literals_map_plain]

theorem shield?_eq_none_iff {triple : Bool} {t : Text} : shield? triple t = none ↔
    (∃ c ∈ t, isQuote c = true) ∧ ∀ c ∈ sentinels, c ∈ t := by
  have hchoose : chooseSentinel? t = none ↔ ∀ c ∈ sentinels, c ∈ t := by
    rw [chooseSentinel?, List.find?_eq_none]
    simp
  rw [← List.any_eq_true, ← hchoose, shield?]
  split
  · rename_i hq
    simp [hq]
  · rename_i hq
    simp [hq]

theorem exists_shield?_of_free {t : Text} {c : CodePoint} (hc : c ∈ sentinels) (hfree : c ∉ t) (triple : Bool) :
    ∃ s, shield? triple t = some s := by
  rw [← Option.ne_none_iff_exists']
  intro hnone
  exact hfree ((shield?_eq_none_iff.mp hnone).2 c hc)

theorem exists_shield?_of_imp {triple : Bool} {t u : Text} {s : Shielded} (h : shield? triple t = some s)
    (hquote : (∃ c ∈ u, isQuote c = true) → ∃ c ∈ t, isQuote c = true)
    (hsub : ∀ c ∈ sentinels, c ∈ u → c ∈ t) : ∃ s', shield? triple u = some s' := by
  rw [← Option.ne_none_iff_exists']
  intro hnone
  obtain ⟨hq, hall⟩ := shield?_eq_none_iff.mp hnone
  have hfail : shield? triple t = none :=
    shield?_eq_none_iff.mpr ⟨hquote hq, fun c hc => hsub c hc (hall c hc)⟩
  rw [h] at hfail
  exact absurd hfail (Option.some_ne_none s)

theorem shield?_of_quoteless {triple : Bool} {t : Text} (h : ∀ c ∈ t, isQuote c = false) :
    shield? triple t = some { text := t, spans := #[], sentinel := defaultSentinel } := by
  have hnone : ¬ t.any isQuote = true := by simpa using h
  rw [shield?, if_neg hnone]

theorem Shielded.restore_fill {s : Shielded} {r : Nat → Nat} {lit : Nat → Text} {ω : List Slot}
    (hfree : s.spans = #[] ∨ Slot.char s.sentinel ∉ ω)
    (hlit : ∀ i, Slot.hole i ∈ ω → s.spans[r i]? = some (lit i)) :
    s.restore (fill (s.seat r) ω) = fill lit ω := by
  rcases hfree with hempty | hfree
  · rw [Shielded.restore, unshield, hempty]
    exact fill_congr (fun i hi => by simpa [hempty] using hlit i hi)
  · exact unshield_fill hfree hlit

namespace Shields

variable {triple : Bool} {t : Text} {s : Shielded}

theorem literal_eq (h : Shields triple t s) {i : Nat} (hi : Slot.hole i ∈ slots triple t) :
    s.spans[i]? = some (s.literal i) := by
  have hlt : i < (literals (split triple t)).length := by
    have := mem_holes.mpr hi
    rw [slots, holes_number, List.mem_range'_1] at this
    omega
  have hsize : i < s.spans.size := by simpa [h.spans_eq] using hlt
  rw [Shielded.literal, Array.getElem?_eq_getElem hsize, Option.getD_some]

theorem fill_literal (h : Shields triple t s) : fill s.literal (slots triple t) = t := by
  rw [slots, fill_number, flatMap_text_split]
  intro j x hx
  rw [Nat.zero_add, Shielded.literal, h.spans_eq, List.getElem?_toArray, hx, Option.getD_some]

theorem restore_fill (h : Shields triple t s) {ω : List Slot}
    (hchar : s.sentinel ∉ t → Slot.char s.sentinel ∉ ω)
    (hhole : ∀ i, Slot.hole i ∈ ω → Slot.hole i ∈ slots triple t) :
    s.restore (fill (placeholder s.mark) ω) = fill s.literal ω :=
  Shielded.restore_fill (r := id) (h.absent.imp id hchar) (fun i hi => h.literal_eq (hhole i hi))

theorem restore_text (h : Shields triple t s) : s.restore s.text = t := by
  rw [h.text_eq, h.restore_fill (fun hfree hm => hfree (mem_of_char_mem_slots hm)) (fun i hi => hi),
    h.fill_literal]

end Shields

def chunkSlots : Text ⊕ Nat → List Slot
  | .inl t => ofText t
  | .inr i => [.hole i]

theorem fill_chunkSlots (e : Nat → Text) (chunks : List (Text ⊕ Nat)) :
    fill e (chunks.flatMap chunkSlots) = chunks.flatMap (Sum.elim id e) := by
  induction chunks with
  | nil => rfl
  | cons x chunks ih => cases x <;> simp [chunkSlots, ih]

theorem char_mem_chunkSlots {c : CodePoint} {chunks : List (Text ⊕ Nat)}
    (h : Slot.char c ∈ chunks.flatMap chunkSlots) : ∃ t, .inl t ∈ chunks ∧ c ∈ t := by
  obtain ⟨x, hx, hc⟩ := List.mem_flatMap.mp h
  cases x with
  | inl t => exact ⟨t, hx, char_mem_ofText.mp hc⟩
  | inr i => simp [chunkSlots] at hc

theorem hole_mem_chunkSlots {i : Nat} {chunks : List (Text ⊕ Nat)}
    (h : Slot.hole i ∈ chunks.flatMap chunkSlots) : .inr i ∈ chunks := by
  obtain ⟨x, hx, hi⟩ := List.mem_flatMap.mp h
  cases x with
  | inl t => exact absurd hi (hole_not_mem_ofText i t)
  | inr j =>
      obtain rfl : i = j := by simpa [chunkSlots] using hi
      exact hx

theorem unshield_shield_and_chunks :
    (∀ (triple : Bool) (t : Text) (s : Shielded), shield? triple t = some s →
      unshield s.mark s.spans s.text = t) ∧
    ∀ (spans : Array Text) (c : CodePoint) (chunks : List (Text ⊕ Nat)),
      (∀ t, .inl t ∈ chunks → c ∉ t) → (∀ i, .inr i ∈ chunks → i < spans.size) →
        unshield [c] spans (chunks.flatMap (Sum.elim id (placeholder [c]))) =
          chunks.flatMap (Sum.elim id (fun i => (spans[i]?).getD [])) := by
  refine ⟨fun triple t s h => (shields_of_shield? h).restore_text, ?_⟩
  intro spans c chunks hfree hsize
  rw [← fill_chunkSlots, ← fill_chunkSlots]
  refine unshield_fill (r := id) ?_ ?_
  · intro hc
    obtain ⟨t, ht, hct⟩ := char_mem_chunkSlots hc
    exact hfree t ht hct
  · intro i hi
    rw [id, Array.getElem?_eq_getElem (hsize i (hole_mem_chunkSlots hi)), Option.getD_some]

theorem unshield_adjacent_placeholders :
    (∃ s, shield? true "x = '''a'b''' + \"c\"".toText = some s ∧
      unshield s.mark s.spans s.text = "x = '''a'b''' + \"c\"".toText) ∧
    unshield [ch '\x00'] #[placeholder [ch '\x00'] 1, [ch 'b']]
        (placeholder [ch '\x00'] 1 ++ ("STR5END".toText ++ placeholder [ch '\x00'] 0)) =
      [ch 'b'] ++ ("STR5END".toText ++ placeholder [ch '\x00'] 1) := by
  constructor
  · have h : shield? true "x = '''a'b''' + \"c\"".toText = some
        { text := "x = \x00STR0END\x00 + \x00STR1END\x00".toText
          spans := #["'''a'b'''".toText, "\"c\"".toText]
          sentinel := '\x00' } := by cbv
    exact ⟨_, h, unshield_shield_and_chunks.1 true _ _ h⟩
  · exact unshield_shield_and_chunks.2 #[placeholder [ch '\x00'] 1, [ch 'b']] '\x00'
      [.inr 1, .inl "STR5END".toText, .inr 0] (by simp) (by simp)

end CodeCompaction.Literal
