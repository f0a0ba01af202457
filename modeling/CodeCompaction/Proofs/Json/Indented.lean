import Mathlib
import CodeCompaction.Proofs.Json.Canonical
import CodeCompaction.Proofs.Json.Woven

namespace CodeCompaction.Json

open CodeCompaction.Text CodeCompaction.Number

section Layout

variable {blocks lines : Bool} {t u : Text}

theorem LexesAs.woven {l : Text} {k : Token} (hl : LexesAs l k t) (hk : k ≠ .fault)
    (h : Woven blocks lines t u) : Woven blocks lines (l ++ t) (l ++ u) := by
  obtain ⟨c, w, rfl, hc, hat⟩ := hl
  exact .token hc hat hk h

theorem Woven.punctuation {c : CodePoint} (hc : c ∈ punctuation) (h : Woven blocks lines t u) :
    Woven blocks lines (c :: t) (c :: u) := by
  simp only [Json.punctuation, List.mem_cons, List.not_mem_nil, or_false] at hc
  rcases hc with rfl | rfl | rfl | rfl | rfl | rfl <;> exact .token (w := []) rfl rfl (by simp) h

theorem Woven.blanks {w : Text} (hw : ∀ c ∈ w, isSpace c = true) (h : Woven blocks lines t u) :
    Woven blocks lines t (w ++ u) := by
  induction w with
  | nil => exact h
  | cons c w ih =>
      obtain ⟨hc, hw⟩ := List.forall_mem_cons.mp hw
      exact .blank hc (ih hw)

theorem isSpace_of_mem_newline {width depth : Nat} : ∀ c ∈ newline width depth, isSpace c = true := by
  refine List.forall_mem_cons.mpr ⟨rfl, fun c hc => ?_⟩
  rw [List.eq_of_mem_replicate hc]
  rfl

theorem lexesAs_scalarText {v : Value} (hv : isCanonical v = true) (ht : EndsValue t)
    (hitems : ∀ items, v ≠ .arr items) (hmembers : ∀ ms, v ≠ .obj ms) :
    ∃ k, k ≠ .fault ∧ LexesAs (scalarText v) k t := by
  cases v with
  | null => exact ⟨.scalar .null, by simp, 'n', "ull".toText, rfl, rfl, rfl⟩
  | bool b =>
      cases b with
      | true => exact ⟨.scalar (.bool true), by simp, 't', "rue".toText, rfl, rfl, rfl⟩
      | false => exact ⟨.scalar (.bool false), by simp, 'f', "alse".toText, rfl, rfl, rfl⟩
  | int i => exact ⟨.scalar (.int i), by simp, lexesAs_signed (by simpa [isCanonical] using hv) ht⟩
  | real x => simp [isCanonical] at hv
  | str s => exact ⟨.text s, by simp, lexesAs_stringText s t⟩
  | arr items => exact absurd rfl (hitems items)
  | obj ms => exact absurd rfl (hmembers ms)

mutual

theorem woven_indentedOnto (width depth : Nat) (v : Value) (t u : Text) (hv : isCanonical v = true)
    (ht : EndsValue t) (h : Woven false false t u) :
    Woven false false (compactOnto v t) (indentedOnto width depth v u) := by
  have hscalar : (∀ items, v ≠ .arr items) → (∀ ms, v ≠ .obj ms) →
      Woven false false (scalarText v ++ t) (scalarText v ++ u) := by
    intro hitems hmembers
    obtain ⟨k, hk, hlexes⟩ := lexesAs_scalarText hv ht hitems hmembers
    exact hlexes.woven hk h
  match v with
  | .arr [] => exact .punctuation (by decide) (.punctuation (by decide) h)
  | .arr (v :: vs) =>
      rw [isCanonical] at hv
      rw [compactOnto, indentedOnto]
      exact .punctuation (by decide) (woven_indentedItems width (depth + 1) (v :: vs) _ _ hv
        (endsValue_cons (by decide) t) (.blanks isSpace_of_mem_newline (.punctuation (by decide) h)))
  | .obj [] => exact .punctuation (by decide) (.punctuation (by decide) h)
  | .obj (m :: ms) =>
      rw [isCanonical, Bool.and_eq_true] at hv
      rw [compactOnto, indentedOnto]
      exact .punctuation (by decide) (woven_indentedMembers width (depth + 1) (m :: ms) _ _ hv.2
        (endsValue_cons (by decide) t) (.blanks isSpace_of_mem_newline (.punctuation (by decide) h)))
  | .null => exact hscalar (by simp) (by simp)
  | .bool b => exact hscalar (by simp) (by simp)
  | .int i => exact hscalar (by simp) (by simp)
  | .real x => exact hscalar (by simp) (by simp)
  | .str s => exact hscalar (by simp) (by simp)

theorem woven_indentedItems (width depth : Nat) (items : List Value) (t u : Text)
    (hv : itemsCanonical items = true) (ht : EndsValue t) (h : Woven false false t u) :
    Woven false false (compactItems items t) (indentedItems width depth items u) := by
  match items with
  | [] => exact h
  | [v] =>
      rw [itemsCanonical, Bool.and_eq_true] at hv
      exact .blanks isSpace_of_mem_newline (woven_indentedOnto width depth v _ _ hv.1 ht h)
  | v :: w :: vs =>
      rw [itemsCanonical, Bool.and_eq_true] at hv
      exact .blanks isSpace_of_mem_newline (woven_indentedOnto width depth v _ _ hv.1
        (endsValue_cons (by decide) _)
        (.punctuation (by decide) (woven_indentedItems width depth (w :: vs) t u hv.2 ht h)))

theorem woven_indentedMembers (width depth : Nat) (ms : List (Text × Value)) (t u : Text)
    (hv : membersCanonical ms = true) (ht : EndsValue t) (h : Woven false false t u) :
    Woven false false (compactMembers ms t) (indentedMembers width depth ms u) := by
  have hname : ∀ (n : Text) {x y : Text}, Woven false false x y →
      Woven false false (stringText n ++ ch ':' :: x)
        (newline width depth ++ stringText n ++ ch ':' :: ch ' ' :: y) := by
    intro n x y hxy
    rw [List.append_assoc]
    exact .blanks isSpace_of_mem_newline ((lexesAs_stringText n _).woven (by simp)
      (.punctuation (by decide) (.blank rfl hxy)))
  match ms with
  | [] => exact h
  | [(n, v)] =>
      rw [membersCanonical, Bool.and_eq_true] at hv
      exact hname n (woven_indentedOnto width depth v _ _ hv.1 ht h)
  | (n, v) :: m :: ms =>
      rw [membersCanonical, Bool.and_eq_true] at hv
      exact hname n (woven_indentedOnto width depth v _ _ hv.1 (endsValue_cons (by decide) _)
        (.punctuation (by decide) (woven_indentedMembers width depth (m :: ms) t u hv.2 ht h)))

end

theorem woven_indented (width : Nat) {v : Value} (hv : isCanonical v = true) :
    Woven false false (compact v) (indented width v) :=
  woven_indentedOnto width 0 v [] [] hv (by simp [EndsValue]) .nil

end Layout

section Breaks

variable {t u : Text}

theorem unifyBreaks_cons_of_ne {c : CodePoint} (hc : c ≠ '\r') (t : Text) :
    unifyBreaks (c :: t) = c :: unifyBreaks t := by
  rw [unifyBreaks, if_neg (by simpa using hc)]
  exact fun _ heq => absurd heq hc

theorem unifyBreaks_append {w : Text} (hw : ch '\r' ∉ w) (t : Text) :
    unifyBreaks (w ++ t) = w ++ unifyBreaks t := by
  induction w with
  | nil => rfl
  | cons c w ih =>
      rw [List.cons_append, unifyBreaks_cons_of_ne (List.ne_of_not_mem_cons hw).symm,
        ih (List.not_mem_of_not_mem_cons hw), List.cons_append]

theorem unifyBreaks_return (t : Text) : ∃ s, unifyBreaks (ch '\r' :: t) = ch '\n' :: s ∧
    (unifyBreaks t = s ∨ unifyBreaks t = ch '\n' :: s) := by
  cases t with
  | nil => exact ⟨[], rfl, .inl rfl⟩
  | cons c t =>
      by_cases hc : c = '\n'
      · subst hc
        exact ⟨unifyBreaks t, by rw [unifyBreaks], .inr (unifyBreaks_cons_of_ne (by decide) t)⟩
      · refine ⟨unifyBreaks (c :: t), ?_, .inl rfl⟩
        rw [unifyBreaks]
        · rfl
        · exact fun _ _ heq => absurd (List.cons.inj heq).1 hc

theorem all_isSpace_unifyBreaks (h : u.head?.all isSpace = true) :
    (unifyBreaks u).head?.all isSpace = true := by
  cases u with
  | nil => rfl
  | cons c u =>
      by_cases hc : c = '\r'
      · subst hc
        obtain ⟨s, hs, -⟩ := unifyBreaks_return u
        rw [hs]
        rfl
      · rw [unifyBreaks_cons_of_ne hc]
        exact h

theorem Woven.unifyBreaks (h : Woven false false t u) : Woven false false t (Text.unifyBreaks u) := by
  induction h with
  | nil => exact .nil
  | @token c w t u k hc hat hk _ ih =>
      have hplain : ch '\r' ∉ c :: w := fun hm => absurd ((token_firm hat hk).1 _ hm) (by decide)
      have hunified := unifyBreaks_append hplain u
      rw [List.cons_append, List.cons_append] at hunified
      rw [hunified]
      exact .token hc hat hk ih
  | @blank c t u hc _ ih =>
      by_cases hreturn : c = '\r'
      · subst hreturn
        obtain ⟨s, hs, hu | hu⟩ := unifyBreaks_return u
        · rw [hs, ← hu]
          exact .blank rfl ih
        · rwa [hs, ← hu]
      · rw [unifyBreaks_cons_of_ne hreturn]
        exact .blank hc ih
  | spared hc hu _ ih => exact .spared hc (all_isSpace_unifyBreaks hu) ih
  | block hblocks => exact absurd hblocks Bool.false_ne_true
  | line hlines => exact absurd hlines Bool.false_ne_true

end Breaks

section Ends

variable {t u : Text}

end Ends

section Pieces

mutual

theorem flatten_indentedPieces (width depth : Nat) (v : Value) (rest : Text) :
    (indentedPieces width depth v).flatten ++ rest = indentedOnto width depth v rest := by
  match v with
  | .arr [] => rfl
  | .obj [] => rfl
  | .arr (v :: vs) =>
      rw [indentedPieces, indentedOnto, List.flatten_append, List.append_assoc, flatten_itemPieces]
      simp
  | .obj (m :: ms) =>
      rw [indentedPieces, indentedOnto, List.flatten_append, List.append_assoc, flatten_memberPieces]
      simp
  | .null => rfl
  | .bool b => simp [indentedPieces, indentedOnto]
  | .int i => simp [indentedPieces, indentedOnto]
  | .real x => simp [indentedPieces, indentedOnto]
  | .str s => simp [indentedPieces, indentedOnto]

theorem flatten_itemPieces (width depth : Nat) (front : Text) (vs : List Value) (rest : Text) :
    (itemPieces width depth front vs).flatten ++ rest =
      (if vs.isEmpty then [] else front) ++ indentedItems width depth vs rest := by
  match vs with
  | [] => rfl
  | v :: vs =>
      rw [itemPieces, indentedItems, ← flatten_itemPieces width depth [ch ','] vs rest,
        ← flatten_indentedPieces width depth v]
      split
      · rename_i hpiece
        simp [hpiece]
      · simp

theorem flatten_memberPieces (width depth : Nat) (front : Text) (ms : List (Text × Value)) (rest : Text) :
    (memberPieces width depth front ms).flatten ++ rest =
      (if ms.isEmpty then [] else front) ++ indentedMembers width depth ms rest := by
  match ms with
  | [] => rfl
  | (n, v) :: ms =>
      rw [memberPieces, indentedMembers, ← flatten_memberPieces width depth [ch ','] ms rest,
        ← flatten_indentedPieces width depth v]
      simp

end

theorem flatten_pieces (width : Nat) (v : Value) : (indentedPieces width 0 v).flatten = indented width v := by
  rw [indented, ← flatten_indentedPieces, List.append_nil]

end Pieces

variable {limit : NestingLimit} {specials : Bool}

theorem parse_unifyBreaks_indented {v : Value} (hv : isCanonical v = true)
    (hdepth : depth v ≤ limit.levels) (width : Nat) :
    parse limit specials (unifyBreaks (indented width v)) = .ok v :=
  parse_of_woven (woven_indented width hv).unifyBreaks (parse_compact hv hdepth)

end CodeCompaction.Json
