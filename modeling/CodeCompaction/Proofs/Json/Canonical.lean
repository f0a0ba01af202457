import CodeCompaction.Proofs.Json.Writing

namespace CodeCompaction.Json

open CodeCompaction.Text CodeCompaction.Number

mutual

def isCanonical : Value → Bool
  | .int i => (decimal i.natAbs).length ≤ maxDigits
  | .real _ => false
  | .arr items => itemsCanonical items
  | .obj ms => (ms.map Prod.fst).Nodup && membersCanonical ms
  | _ => true

def itemsCanonical : List Value → Bool
  | [] => true
  | v :: vs => isCanonical v && itemsCanonical vs

def membersCanonical : List (Text × Value) → Bool
  | [] => true
  | (_, v) :: ms => isCanonical v && membersCanonical ms

end

mutual

def depth : Value → Nat
  | .arr items => itemsDepth items + 1
  | .obj ms => membersDepth ms + 1
  | _ => 0

def itemsDepth : List Value → Nat
  | [] => 0
  | v :: vs => max (depth v) (itemsDepth vs)

def membersDepth : List (Text × Value) → Nat
  | [] => 0
  | (_, v) :: ms => max (depth v) (membersDepth ms)

end

mutual

theorem isFinite_of_isCanonical (v : Value) (h : isCanonical v = true) : isFinite v = true := by
  cases v with
  | real x => simp [isCanonical] at h
  | arr items =>
      rw [isCanonical] at h
      exact itemsFinite_of_itemsCanonical items h
  | obj ms =>
      rw [isCanonical, Bool.and_eq_true] at h
      exact membersFinite_of_membersCanonical ms h.2
  | _ => rfl

theorem itemsFinite_of_itemsCanonical (vs : List Value) (h : itemsCanonical vs = true) :
    itemsFinite vs = true := by
  cases vs with
  | nil => rfl
  | cons v vs =>
      rw [itemsCanonical, Bool.and_eq_true] at h
      rw [itemsFinite, isFinite_of_isCanonical v h.1, itemsFinite_of_itemsCanonical vs h.2]
      rfl

theorem membersFinite_of_membersCanonical (ms : List (Text × Value)) (h : membersCanonical ms = true) :
    membersFinite ms = true := by
  cases ms with
  | nil => rfl
  | cons m ms =>
      obtain ⟨n, v⟩ := m
      rw [membersCanonical, Bool.and_eq_true] at h
      rw [membersFinite, isFinite_of_isCanonical v h.1, membersFinite_of_membersCanonical ms h.2]
      rfl

end

section Reading

variable {limit : NestingLimit} {specials : Bool} {fs : List Frame} {rest : Text}

theorem readAll_cons (r : Reading) (k : Token) (ks : List Token) :
    readAll limit specials r (k :: ks) = read limit specials r k >>= fun r' => readAll limit specials r' ks :=
  List.foldlM_cons

theorem endsValue_cons {c : CodePoint} (hc : c ∈ closers) (t : Text) : EndsValue (c :: t) := by
  intro d hd
  obtain rfl : c = d := by simpa using hd
  exact hc

theorem tokens_openArray (t : Text) : tokens (ch '[' :: t) = .openArray :: tokens t := rfl

theorem tokens_closeArray (t : Text) : tokens (ch ']' :: t) = .closeArray :: tokens t := rfl

theorem tokens_openObject (t : Text) : tokens (ch '\x7b' :: t) = .openObject :: tokens t := rfl

theorem tokens_closeObject (t : Text) : tokens (ch '\x7d' :: t) = .closeObject :: tokens t := rfl

theorem tokens_comma (t : Text) : tokens (ch ',' :: t) = .comma :: tokens t := rfl

theorem tokens_colon (t : Text) : tokens (ch ':' :: t) = .colon :: tokens t := rfl

def expectsValue (next : Next) : Prop := next = .value ∨ next = .valueOrClose

theorem read_scalar {next : Next} (hnext : expectsValue next) (v : Value) :
    read limit specials (.within fs next) (.scalar v) = place v fs := by
  rcases hnext with rfl | rfl <;> rfl

theorem read_text {next : Next} (hnext : expectsValue next) (t : Text) :
    read limit specials (.within fs next) (.text t) = place (.str t) fs := by
  rcases hnext with rfl | rfl <;> rfl

theorem read_openArray {next : Next} (hnext : expectsValue next) (hfs : fs.length < limit.levels) :
    read limit specials (.within fs next) .openArray = .ok (.within (.array [] :: fs) .valueOrClose) := by
  rcases hnext with rfl | rfl <;> exact if_neg (Nat.not_le.mpr hfs)

theorem read_openObject {next : Next} (hnext : expectsValue next) (hfs : fs.length < limit.levels) :
    read limit specials (.within fs next) .openObject = .ok (.within (.object [] :: fs) .nameOrClose) := by
  rcases hnext with rfl | rfl <;> exact if_neg (Nat.not_le.mpr hfs)

theorem readAll_name {next : Next} (hnext : next = .nameOrClose ∨ next = .name)
    (ms : List (Text × Value)) (fs : List Frame) (n t : Text) :
    readAll limit specials (.within (.object ms :: fs) next) (tokens (stringText n ++ ch ':' :: t)) =
      readAll limit specials (.within (.member ms n :: fs) .value) (tokens t) := by
  rw [tokens_stringText, readAll_cons, tokens_colon]
  rcases hnext with rfl | rfl <;> rfl

mutual

theorem readAll_compactOnto (v : Value) (fs : List Frame) (next : Next) (rest : Text)
    (hv : isCanonical v = true) (hdepth : fs.length + depth v ≤ limit.levels)
    (hnext : expectsValue next) (hrest : EndsValue rest) :
    readAll limit specials (.within fs next) (tokens (compactOnto v rest)) =
      place v fs >>= fun r => readAll limit specials r (tokens rest) := by
  cases v with
  | null =>
      change readAll limit specials (.within fs next) (.scalar .null :: tokens rest) = _
      rw [readAll_cons, read_scalar hnext]
  | bool b =>
      have htokens : tokens (compactOnto (.bool b) rest) = .scalar (.bool b) :: tokens rest := by
        cases b <;> rfl
      rw [htokens, readAll_cons, read_scalar hnext]
  | int i =>
      have hlen : (decimal i.natAbs).length ≤ maxDigits := by simpa [isCanonical] using hv
      have htokens : tokens (compactOnto (.int i) rest) = .scalar (.int i) :: tokens rest :=
        tokens_signed hlen hrest
      rw [htokens, readAll_cons, read_scalar hnext]
  | real x => simp [isCanonical] at hv
  | str t =>
      have htokens : tokens (compactOnto (.str t) rest) = .text t :: tokens rest :=
        tokens_stringText t rest
      rw [htokens, readAll_cons, read_text hnext]
  | arr items =>
      rw [isCanonical] at hv
      rw [depth] at hdepth
      rw [compactOnto, tokens_openArray, readAll_cons, read_openArray hnext (by omega)]
      exact readAll_compactItems items [] fs .valueOrClose rest hv (by omega) (.inl rfl)
  | obj ms =>
      rw [isCanonical, Bool.and_eq_true] at hv
      rw [depth] at hdepth
      have hfs : fs.length < limit.levels := by omega
      rw [compactOnto, tokens_openObject, readAll_cons, read_openObject hnext hfs]
      have hroom : fs.length + 1 + membersDepth ms ≤ limit.levels := by omega
      have hmembers := readAll_compactMembers ms [] fs .nameOrClose rest hv.2 hroom (.inl rfl)
      rw [List.reverse_nil, List.nil_append, settled_of_nodup (by simpa using hv.1)] at hmembers
      exact hmembers

theorem readAll_compactItems (items acc : List Value) (fs : List Frame) (next : Next) (rest : Text)
    (hv : itemsCanonical items = true) (hdepth : fs.length + 1 + itemsDepth items ≤ limit.levels)
    (hnext : next = .valueOrClose ∨ next = .value ∧ items ≠ []) :
    readAll limit specials (.within (.array acc :: fs) next) (tokens (compactItems items (ch ']' :: rest))) =
      place (.arr (acc.reverse ++ items)) fs >>= fun r => readAll limit specials r (tokens rest) := by
  have hexpects : expectsValue next := hnext.symm.imp And.left id
  match items with
  | [] =>
      obtain rfl : next = .valueOrClose := hnext.resolve_right (fun h => h.2 rfl)
      rw [compactItems, tokens_closeArray, readAll_cons, List.append_nil]
      rfl
  | [v] =>
      rw [itemsCanonical, Bool.and_eq_true] at hv
      rw [itemsDepth] at hdepth
      rw [compactItems, readAll_compactOnto v _ _ _ hv.1 (by simp only [List.length_cons]; omega) hexpects
        (endsValue_cons (by decide) _)]
      change readAll limit specials (.within (.array (v :: acc) :: fs) .separator) _ = _
      rw [tokens_closeArray, readAll_cons, ← List.reverse_cons]
      rfl
  | v :: w :: vs =>
      -- the frame takes the first item, and the comma asks for the next
      rw [itemsCanonical, Bool.and_eq_true] at hv
      rw [itemsDepth] at hdepth
      rw [compactItems, readAll_compactOnto v _ _ _ hv.1 (by simp only [List.length_cons]; omega) hexpects
        (endsValue_cons (by decide) _)]
      change readAll limit specials (.within (.array (v :: acc) :: fs) .separator) _ = _
      rw [tokens_comma, readAll_cons]
      change readAll limit specials (.within (.array (v :: acc) :: fs) .value) _ = _
      rw [readAll_compactItems (w :: vs) (v :: acc) fs .value rest hv.2 (by omega)
        (.inr ⟨rfl, List.cons_ne_nil _ _⟩), List.reverse_cons, List.append_assoc, List.singleton_append]

theorem readAll_compactMembers (ms acc : List (Text × Value)) (fs : List Frame) (next : Next)
    (rest : Text) (hv : membersCanonical ms = true) (hdepth : fs.length + 1 + membersDepth ms ≤ limit.levels)
    (hnext : next = .nameOrClose ∨ next = .name ∧ ms ≠ []) :
    readAll limit specials (.within (.object acc :: fs) next) (tokens (compactMembers ms (ch '\x7d' :: rest))) =
      place (.obj (settled (acc.reverse ++ ms))) fs >>= fun r => readAll limit specials r (tokens rest) := by
  have hexpects : next = .nameOrClose ∨ next = .name := hnext.imp id And.left
  match ms with
  | [] =>
      obtain rfl : next = .nameOrClose := hnext.resolve_right (fun h => h.2 rfl)
      rw [compactMembers, tokens_closeObject, readAll_cons, List.append_nil]
      rfl
  | [(n, v)] =>
      rw [membersCanonical, Bool.and_eq_true] at hv
      rw [membersDepth] at hdepth
      rw [compactMembers, readAll_name hexpects, readAll_compactOnto v _ _ _ hv.1
        (by simp only [List.length_cons]; omega) (.inl rfl) (endsValue_cons (by decide) _)]
      change readAll limit specials (.within (.object ((n, v) :: acc) :: fs) .separator) _ = _
      rw [tokens_closeObject, readAll_cons, ← List.reverse_cons]
      rfl
  | (n, v) :: m :: ms =>
      rw [membersCanonical, Bool.and_eq_true] at hv
      rw [membersDepth] at hdepth
      rw [compactMembers, readAll_name hexpects, readAll_compactOnto v _ _ _ hv.1
        (by simp only [List.length_cons]; omega) (.inl rfl) (endsValue_cons (by decide) _)]
      change readAll limit specials (.within (.object ((n, v) :: acc) :: fs) .separator) _ = _
      rw [tokens_comma, readAll_cons]
      change readAll limit specials (.within (.object ((n, v) :: acc) :: fs) .name) _ = _
      rw [readAll_compactMembers (m :: ms) ((n, v) :: acc) fs .name rest hv.2 (by omega)
        (.inr ⟨rfl, List.cons_ne_nil _ _⟩), List.reverse_cons, List.append_assoc, List.singleton_append]

end

theorem parse_compact {v : Value} (hv : isCanonical v = true) (hdepth : depth v ≤ limit.levels) :
    parse limit specials (compact v) = .ok v := by
  have hread : readAll limit specials (.within [] .value) (tokens (compactOnto v [])) =
      place v [] >>= fun r => readAll limit specials r (tokens []) :=
    readAll_compactOnto v [] .value [] hv (by simpa using hdepth) (.inl rfl) (by simp [EndsValue])
  rw [parse, start, compact, hread]
  rfl

end Reading

end CodeCompaction.Json
