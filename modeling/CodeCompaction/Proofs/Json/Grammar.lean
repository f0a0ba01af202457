import CodeCompaction.Proofs.Json.Canonical
import CodeCompaction.Proofs.Json.Lexing

namespace CodeCompaction.Json

section Spelling

def commas (kss : List (List Token)) : List Token := [Token.comma].intercalate kss

def withComma (ks : List Token) : List Token := ks ++ [.comma]

structure Entry where
  name : Text
  value : Value
  tokens : List Token

namespace Entry

def member (e : Entry) : Text × Value := (e.name, e.value)

def row (e : Entry) : List Token := .text e.name :: .colon :: e.tokens

end Entry

/-- The tokens that spell a value; `specials` admits the names of numbers that are not finite. -/
inductive Spells (specials : Bool) : Value → List Token → Prop where
  | scalar (v : Value) : Spells specials v [.scalar v]
  | text (t : Text) : Spells specials (.str t) [.text t]
  | special (x : Float) (h : specials = true) : Spells specials (.real x) [.special x]
  | array {items : List (Value × List Token)} (h : ∀ i ∈ items, Spells specials i.1 i.2) :
      Spells specials (.arr (items.map Prod.fst))
        (.openArray :: (commas (items.map Prod.snd) ++ [.closeArray]))
  | object {entries : List Entry} (h : ∀ e ∈ entries, Spells specials e.value e.tokens) :
      Spells specials (.obj (settled (entries.map Entry.member)))
        (.openObject :: (commas (entries.map Entry.row) ++ [.closeObject]))

def Token.opens : Token → Bool
  | .openArray => true
  | .openObject => true
  | _ => false

def Token.closes : Token → Bool
  | .closeArray => true
  | .closeObject => true
  | _ => false

def opened (ks : List Token) : Nat := ks.countP Token.opens

def closed (ks : List Token) : Nat := ks.countP Token.closes

/-- A front of the tokens begins the spelling of a value and leaves more containers open than the limit. -/
def TooDeep (limit : NestingLimit) (specials : Bool) (ks : List Token) : Prop :=
  ∃ front rest v, front <+: ks ∧ Spells specials v (front ++ rest) ∧ closed front + limit.levels < opened front

end Spelling

variable {limit : NestingLimit} {specials : Bool}

section Counting

variable {ks ls : List Token}

theorem opened_append (ks ls : List Token) : opened (ks ++ ls) = opened ks + opened ls :=
  List.countP_append

theorem closed_append (ks ls : List Token) : closed (ks ++ ls) = closed ks + closed ls :=
  List.countP_append

def Leaves (n : Nat) (ks : List Token) : Prop := opened ks = closed ks + n

theorem Leaves.append {m n : Nat} (hks : Leaves m ks) (hls : Leaves n ls) : Leaves (m + n) (ks ++ ls) := by
  rw [Leaves] at hks hls ⊢
  rw [opened_append, closed_append]
  omega

theorem Leaves.cons {n : Nat} {k : Token} (hk : Leaves 0 [k]) (hks : Leaves n ks) : Leaves n (k :: ks) := by
  simpa using hk.append hks

theorem Leaves.opening {n : Nat} {k : Token} (hk : Leaves 1 [k]) (hks : Leaves n ks) :
    Leaves (n + 1) (k :: ks) := by
  simpa [Nat.add_comm] using hk.append hks

theorem Leaves.inside {n : Nat} {k : Token} (hks : Leaves n ks) (hk : Leaves 1 [k]) (hls : Leaves 0 ls) :
    Leaves (n + 1) (ks ++ k :: ls) :=
  hks.append (hk.opening hls)

theorem Leaves.enclosed {k k' : Token} (hk : Leaves 1 [k]) (hk' : closed [k'] = opened [k'] + 1)
    (hks : Leaves 0 ks) : Leaves 0 (k :: (ks ++ [k'])) := by
  have h := hk.opening hks
  rw [Leaves] at h ⊢
  rw [← List.cons_append, opened_append, closed_append]
  omega

theorem Leaves.flatMap {α : Type} {f : α → List Token} {l : List α} (h : ∀ a ∈ l, Leaves 0 (f a)) :
    Leaves 0 (l.flatMap f) := by
  induction l with
  | nil => rfl
  | cons a l ih =>
      rw [List.flatMap_cons]
      exact (h a (List.mem_cons_self ..)).append (ih (fun b hb => h b (List.mem_cons_of_mem _ hb)))

theorem Leaves.withCommas {kss : List (List Token)} (h : ∀ ks ∈ kss, Leaves 0 ks) :
    Leaves 0 (kss.flatMap withComma) := by
  have hcomma : Leaves 0 [.comma] := rfl
  exact .flatMap fun ks hks => (h ks hks).append hcomma

theorem commas_concat (kss : List (List Token)) (ks : List Token) :
    commas (kss ++ [ks]) = kss.flatMap withComma ++ ks := by
  induction kss with
  | nil => exact List.intercalate_singleton
  | cons ls kss ih =>
      have hne : kss ++ [ks] ≠ [] := by simp
      rw [List.cons_append, commas, List.intercalate_cons_of_ne_nil hne, List.flatMap_cons, withComma,
        List.append_assoc, List.append_assoc, List.append_assoc, ← ih]
      rfl

theorem Leaves.commas {kss : List (List Token)} (h : ∀ ks ∈ kss, Leaves 0 ks) : Leaves 0 (commas kss) := by
  rcases List.eq_nil_or_concat' kss with rfl | ⟨kss, ks, rfl⟩
  · rfl
  · rw [commas_concat]
    exact .append (.withCommas fun ls hls => h ls (by simp [hls])) (h ks (by simp))

theorem leaves_row {e : Entry} (h : Leaves 0 e.tokens) : Leaves 0 e.row := .cons rfl (.cons rfl h)

theorem Spells.leaves {v : Value} (h : Spells specials v ks) : Leaves 0 ks := by
  induction h with
  | scalar v => rfl
  | text t => rfl
  | special x h => rfl
  | array h ih => exact .enclosed rfl rfl (.commas (List.forall_mem_map.mpr ih))
  | object h ih => exact .enclosed rfl rfl (.commas (List.forall_mem_map.mpr fun e he => leaves_row (ih e he)))

end Counting

section Complete

variable {fs : List Frame} {next : Next}

theorem readAll_append (r : Reading) (ks ls : List Token) :
    readAll limit specials r (ks ++ ls) = readAll limit specials r ks >>= fun r' => readAll limit specials r' ls :=
  List.foldlM_append

def ComesTo (e e' : Except ParseError Reading) : Prop := e = e' ∨ ∃ c, e = .error (.tooDeep c)

theorem ComesTo.bind {e e' : Except ParseError Reading} {r : Reading} {f : Reading → Except ParseError Reading}
    (h : ComesTo e (.ok r)) (h' : ComesTo (f r) e') : ComesTo (e >>= f) e' := by
  rcases h with rfl | ⟨c, rfl⟩
  · exact h'
  · exact .inr ⟨c, rfl⟩

def ReadAs (limit : NestingLimit) (specials : Bool) (v : Value) (ks : List Token) : Prop :=
  ∀ fs next, expectsValue next → ComesTo (readAll limit specials (.within fs next) ks) (place v fs)

theorem comesTo_commas {α β : Type} (frame : List α → Frame) {row : β → List Token} (val : β → α)
    {expects : Next → Prop} {rest : Next} (hrest : expects rest)
    (hcomma : ∀ acc, read limit specials (.within (frame acc :: fs) .separator) .comma =
      .ok (.within (frame acc :: fs) rest)) {b : β} {bs : List β}
    (hrow : ∀ b' ∈ b :: bs, ∀ acc next, expects next →
      ComesTo (readAll limit specials (.within (frame acc :: fs) next) (row b'))
        (.ok (.within (frame (val b' :: acc) :: fs) .separator)))
    (hnext : expects next) (acc : List α) :
    ComesTo (readAll limit specials (.within (frame acc :: fs) next) (commas ((b :: bs).map row)))
      (.ok (.within (frame (((b :: bs).map val).reverse ++ acc) :: fs) .separator)) := by
  induction bs generalizing b next acc with
  | nil =>
      rw [List.map_singleton, List.map_singleton, commas, List.intercalate_singleton]
      exact hrow b (by simp) acc next hnext
  | cons c bs ih =>
      -- the comma behind the first row asks for the next one
      rw [List.map_cons, List.map_cons, commas, List.intercalate_cons_cons, List.append_assoc, readAll_append]
      refine (hrow b (by simp) acc next hnext).bind ?_
      have htail := ih (fun b' hb' => hrow b' (List.mem_cons_of_mem _ hb')) hrest (val b :: acc)
      rw [List.map_cons (f := val), List.reverse_cons, List.append_assoc, List.singleton_append, List.singleton_append,
        readAll_cons, hcomma]
      exact htail

theorem comesTo_row {e : Entry} {acc : List (Text × Value)} (hnext : next = .nameOrClose ∨ next = .name)
    (h : ReadAs limit specials e.value e.tokens) :
    ComesTo (readAll limit specials (.within (.object acc :: fs) next) e.row)
      (.ok (.within (.object (e.member :: acc) :: fs) .separator)) := by
  have hvalue := h (.member acc e.name :: fs) .value (.inl rfl)
  rcases hnext with rfl | rfl <;> exact hvalue

theorem comesTo_enter {e : Except ParseError Reading} {r : Reading} {c : Container} {ks : List Token}
    (h : ComesTo (readAll limit specials r ks) e) :
    ComesTo ((if limit.levels ≤ fs.length then .error (.tooDeep c) else .ok r) >>= (readAll limit specials · ks)) e := by
  split
  · exact .inr ⟨c, rfl⟩
  · exact h

theorem Spells.readAs {v : Value} {ks : List Token} (h : Spells specials v ks) : ReadAs limit specials v ks := by
  induction h with
  | scalar v =>
      intro fs next hnext
      exact .inl (by rw [readAll_cons, read_scalar hnext]; exact bind_pure _)
  | text t =>
      intro fs next hnext
      exact .inl (by rw [readAll_cons, read_text hnext]; exact bind_pure _)
  | special x h =>
      intro fs next hnext
      refine .inl ?_
      rw [readAll_cons]
      rcases hnext with rfl | rfl <;> simp only [read, readValue, h, if_true] <;> exact bind_pure _
  | @array items h ih =>
      intro fs next hnext
      have hbody : ComesTo (readAll limit specials (.within (.array [] :: fs) .valueOrClose)
          (commas (items.map Prod.snd) ++ [.closeArray])) (place (.arr (items.map Prod.fst)) fs) := by
        cases items with
        | nil => exact .inl (bind_pure _)
        | cons i items =>
            rw [readAll_append]
            refine (comesTo_commas .array Prod.fst (.inl rfl) (fun _ => rfl)
              (fun j hj acc next hnext => ih j hj (.array acc :: fs) next hnext) (.inr rfl) []).bind (.inl ?_)
            rw [readAll_cons, List.append_nil, read, readSeparator, closeArray, List.reverse_reverse]
            exact bind_pure _
      rw [readAll_cons]
      rcases hnext with rfl | rfl <;> exact comesTo_enter hbody
  | @object entries h ih =>
      intro fs next hnext
      have hbody : ComesTo (readAll limit specials (.within (.object [] :: fs) .nameOrClose)
          (commas (entries.map Entry.row) ++ [.closeObject]))
          (place (.obj (settled (entries.map Entry.member))) fs) := by
        cases entries with
        | nil => exact .inl (bind_pure _)
        | cons e entries =>
            rw [readAll_append]
            refine (comesTo_commas .object Entry.member (.inr rfl) (fun _ => rfl)
              (fun e' he acc next hnext => comesTo_row hnext (ih e' he)) (.inl rfl) []).bind (.inl ?_)
            rw [readAll_cons, List.append_nil, read, readSeparator, closeObject, List.reverse_reverse]
            exact bind_pure _
      rw [readAll_cons]
      rcases hnext with rfl | rfl <;> exact comesTo_enter hbody

end Complete

section Sound

def ItemsSpelled (specials : Bool) (items : List (Value × List Token)) : Prop :=
  ∀ i ∈ items, Spells specials i.1 i.2

def EntriesSpelled (specials : Bool) (entries : List Entry) : Prop :=
  ∀ e ∈ entries, Spells specials e.value e.tokens

inductive Awaits (limit : NestingLimit) (specials : Bool) : List Frame → List Token → Prop where
  | root : Awaits limit specials [] []
  | item {fs ks items} (h : Awaits limit specials fs ks) (hlt : fs.length < limit.levels)
      (hitems : ItemsSpelled specials items) :
      Awaits limit specials (.array (items.map Prod.fst).reverse :: fs)
        (ks ++ .openArray :: (items.map Prod.snd).flatMap withComma)
  | member {fs ks entries} (h : Awaits limit specials fs ks) (hlt : fs.length < limit.levels)
      (hentries : EntriesSpelled specials entries) (name : Text) :
      Awaits limit specials (.member (entries.map Entry.member).reverse name :: fs)
        (ks ++ .openObject :: ((entries.map Entry.row).flatMap withComma ++ [.text name, .colon]))

inductive Arrived (limit : NestingLimit) (specials : Bool) : Reading → List Token → Prop where
  | complete {v ks} (h : Spells specials v ks) : Arrived limit specials (.complete v) ks
  | value {fs ks} (h : Awaits limit specials fs ks) : Arrived limit specials (.within fs .value) ks
  | inArray {fs ks} (h : Awaits limit specials fs ks) (hlt : fs.length < limit.levels) :
      Arrived limit specials (.within (.array [] :: fs) .valueOrClose) (ks ++ [.openArray])
  | afterItem {fs ks items} (h : Awaits limit specials fs ks) (hlt : fs.length < limit.levels)
      (hitems : ItemsSpelled specials items) (hne : items ≠ []) :
      Arrived limit specials (.within (.array (items.map Prod.fst).reverse :: fs) .separator)
        (ks ++ .openArray :: commas (items.map Prod.snd))
  | inObject {fs ks} (h : Awaits limit specials fs ks) (hlt : fs.length < limit.levels) :
      Arrived limit specials (.within (.object [] :: fs) .nameOrClose) (ks ++ [.openObject])
  | name {fs ks entries} (h : Awaits limit specials fs ks) (hlt : fs.length < limit.levels)
      (hentries : EntriesSpelled specials entries) :
      Arrived limit specials (.within (.object (entries.map Entry.member).reverse :: fs) .name)
        (ks ++ .openObject :: (entries.map Entry.row).flatMap withComma)
  | colon {fs ks entries} (h : Awaits limit specials fs ks) (hlt : fs.length < limit.levels)
      (hentries : EntriesSpelled specials entries) (name : Text) :
      Arrived limit specials (.within (.member (entries.map Entry.member).reverse name :: fs) .colon)
        (ks ++ .openObject :: ((entries.map Entry.row).flatMap withComma ++ [.text name]))
  | afterEntry {fs ks entries} (h : Awaits limit specials fs ks) (hlt : fs.length < limit.levels)
      (hentries : EntriesSpelled specials entries) (hne : entries ≠ []) :
      Arrived limit specials (.within (.object (entries.map Entry.member).reverse :: fs) .separator)
        (ks ++ .openObject :: commas (entries.map Entry.row))

variable {fs : List Frame} {ks ls : List Token} {v : Value} {items : List (Value × List Token)}
  {entries : List Entry}

theorem commas_append_comma {kss : List (List Token)} (h : kss ≠ []) :
    commas kss ++ [.comma] = kss.flatMap withComma := by
  rcases List.eq_nil_or_concat' kss with rfl | ⟨kss, ks, rfl⟩
  · exact absurd rfl h
  · rw [commas_concat, List.flatMap_append, List.flatMap_singleton, withComma, List.append_assoc]

theorem ItemsSpelled.nil : ItemsSpelled specials [] := by simp [ItemsSpelled]

theorem EntriesSpelled.nil : EntriesSpelled specials [] := by simp [EntriesSpelled]

theorem ItemsSpelled.concat (hitems : ItemsSpelled specials items) (hv : Spells specials v ks) :
    ItemsSpelled specials (items ++ [(v, ks)]) := by
  intro i hi
  rcases List.mem_append.mp hi with hi | hi
  · exact hitems i hi
  · exact List.mem_singleton.mp hi ▸ hv

theorem EntriesSpelled.concat (hentries : EntriesSpelled specials entries) (hv : Spells specials v ks)
    (name : Text) : EntriesSpelled specials (entries ++ [⟨name, v, ks⟩]) := by
  intro e he
  rcases List.mem_append.mp he with he | he
  · exact hentries e he
  · exact List.mem_singleton.mp he ▸ hv

theorem ItemsSpelled.leaves (hitems : ItemsSpelled specials items) :
    ∀ ks ∈ items.map Prod.snd, Leaves 0 ks :=
  List.forall_mem_map.mpr fun i hi => (hitems i hi).leaves

theorem EntriesSpelled.leaves (hentries : EntriesSpelled specials entries) :
    ∀ ks ∈ entries.map Entry.row, Leaves 0 ks :=
  List.forall_mem_map.mpr fun e he => leaves_row (hentries e he).leaves

namespace Awaits

theorem length_le (h : Awaits limit specials fs ks) : fs.length ≤ limit.levels := by
  cases h with
  | root => exact Nat.zero_le _
  | item h hlt hitems => exact hlt
  | member h hlt hentries name => exact hlt

theorem leaves (h : Awaits limit specials fs ks) : Leaves fs.length ks := by
  induction h with
  | root => rfl
  | item h hlt hitems ih => exact ih.inside rfl (.withCommas hitems.leaves)
  | member h hlt hentries name ih =>
      have hname : Leaves 0 [.text name, .colon] := rfl
      exact ih.inside rfl (.append (.withCommas hentries.leaves) hname)

theorem exists_spells (h : Awaits limit specials fs ks) (hv : Spells specials v ls) :
    ∃ rest w, Spells specials w (ks ++ (ls ++ rest)) := by
  induction h generalizing v ls with
  | root => exact ⟨[], v, by simpa using hv⟩
  | @item fs ks items h hlt hitems ih =>
      obtain ⟨rest, w, hw⟩ := ih (.array (hitems.concat hv))
      refine ⟨.closeArray :: rest, w, ?_⟩
      rw [List.map_append, List.map_singleton, commas_concat] at hw
      simpa using hw
  | @member fs ks entries h hlt hentries name ih =>
      obtain ⟨rest, w, hw⟩ := ih (.object (hentries.concat hv name))
      refine ⟨.closeObject :: rest, w, ?_⟩
      rw [List.map_append, List.map_singleton, commas_concat] at hw
      simpa [Entry.row] using hw

end Awaits

def LeadsTo (limit : NestingLimit) (specials : Bool) (ks : List Token) : Except ParseError Reading → Prop
  | .ok r => Arrived limit specials r ks
  | .error .malformed => True
  | .error (.tooDeep _) => TooDeep limit specials ks

theorem TooDeep.append (h : TooDeep limit specials ks) (ls : List Token) : TooDeep limit specials (ks ++ ls) := by
  obtain ⟨front, rest, v, hfront, hv, hdeep⟩ := h
  exact ⟨front, rest, v, hfront.trans (List.prefix_append ..), hv, hdeep⟩

theorem Awaits.leadsTo_place (h : Awaits limit specials fs ks) (hv : Spells specials v ls) :
    LeadsTo limit specials (ks ++ ls) (place v fs) := by
  cases h with
  | root => exact .complete hv
  | @item fs ks items h hlt hitems =>
      have harrived := Arrived.afterItem h hlt (hitems.concat hv) (by simp)
      change Arrived limit specials _ _
      simpa [commas_concat] using harrived
  | @member fs ks entries h hlt hentries name =>
      have harrived := Arrived.afterEntry h hlt (hentries.concat hv name) (by simp)
      change Arrived limit specials _ _
      simpa [commas_concat, Entry.row, Entry.member] using harrived

theorem Awaits.tooDeep (h : Awaits limit specials fs ks) (hfull : limit.levels ≤ fs.length) {opener : Token}
    {tail : List Token} (hopener : Leaves 1 [opener])
    (hv : Spells specials v (opener :: tail)) : TooDeep limit specials (ks ++ [opener]) := by
  obtain ⟨rest, w, hw⟩ := h.exists_spells hv
  refine ⟨ks ++ [opener], tail ++ rest, w, List.prefix_rfl, by simpa using hw, ?_⟩
  have hleaves := h.leaves.append hopener
  rw [Leaves] at hleaves
  omega

theorem Awaits.leadsTo_readValue (h : Awaits limit specials fs ks) (k : Token) :
    LeadsTo limit specials (ks ++ [k]) (readValue limit specials fs k) := by
  cases k with
  | scalar v => exact h.leadsTo_place (.scalar v)
  | text t => exact h.leadsTo_place (.text t)
  | special x =>
      rw [readValue]
      split
      · rename_i hspecials
        exact h.leadsTo_place (.special x hspecials)
      · trivial
  | openArray =>
      rw [readValue, enterArray]
      split
      · rename_i hfull
        exact h.tooDeep hfull rfl (.array ItemsSpelled.nil)
      · rename_i hlt
        exact .inArray h (Nat.not_le.mp hlt)
  | openObject =>
      rw [readValue, enterObject]
      split
      · rename_i hfull
        exact h.tooDeep hfull rfl (.object EntriesSpelled.nil)
      · rename_i hlt
        exact .inObject h (Nat.not_le.mp hlt)
  | _ => trivial

theorem Awaits.leadsTo_closeArray (h : Awaits limit specials fs ks) (hitems : ItemsSpelled specials items) :
    LeadsTo limit specials (ks ++ .openArray :: (commas (items.map Prod.snd) ++ [.closeArray]))
      (closeArray (.array (items.map Prod.fst).reverse :: fs)) := by
  rw [closeArray, List.reverse_reverse]
  exact h.leadsTo_place (.array hitems)

theorem Awaits.leadsTo_closeObject (h : Awaits limit specials fs ks) (hentries : EntriesSpelled specials entries) :
    LeadsTo limit specials (ks ++ .openObject :: (commas (entries.map Entry.row) ++ [.closeObject]))
      (closeObject (.object (entries.map Entry.member).reverse :: fs)) := by
  rw [closeObject, List.reverse_reverse]
  exact h.leadsTo_place (.object hentries)

theorem Awaits.leadsTo_readName (h : Awaits limit specials fs ks) (hlt : fs.length < limit.levels)
    (hentries : EntriesSpelled specials entries) (k : Token) :
    LeadsTo limit specials (ks ++ .openObject :: ((entries.map Entry.row).flatMap withComma ++ [k]))
      (readName (.object (entries.map Entry.member).reverse :: fs) k) := by
  cases k with
  | text t => exact .colon h hlt hentries t
  | _ => trivial

theorem Arrived.leadsTo_read {r : Reading} (h : Arrived limit specials r ks) (k : Token) :
    LeadsTo limit specials (ks ++ [k]) (read limit specials r k) := by
  cases h with
  | complete h => trivial
  | value h => exact h.leadsTo_readValue k
  | @inArray fs ks h hlt =>
      have hawaits : Awaits limit specials (.array [] :: fs) (ks ++ [.openArray]) :=
        .item h hlt .nil
      cases k with
      | closeArray =>
          have hclose := h.leadsTo_closeArray .nil
          rw [List.append_assoc]
          exact hclose
      | _ => exact hawaits.leadsTo_readValue _
  | @afterItem fs ks items h hlt hitems hne =>
      rw [List.append_assoc, List.cons_append]
      cases k with
      | closeArray => exact h.leadsTo_closeArray hitems
      | comma =>
          rw [commas_append_comma (by simpa using hne)]
          exact .value (.item h hlt hitems)
      | _ => trivial
  | @inObject fs ks h hlt =>
      have hclose := h.leadsTo_closeObject .nil
      have hname := fun k => h.leadsTo_readName hlt .nil k
      rw [List.append_assoc]
      cases k with
      | closeObject => exact hclose
      | _ => exact hname _
  | @name fs ks entries h hlt hentries =>
      rw [List.append_assoc, List.cons_append]
      exact h.leadsTo_readName hlt hentries k
  | @colon fs ks entries h hlt hentries name =>
      cases k with
      | colon =>
          rw [List.append_assoc, List.cons_append, List.append_assoc]
          exact .value (.member h hlt hentries name)
      | _ => trivial
  | @afterEntry fs ks entries h hlt hentries hne =>
      rw [List.append_assoc, List.cons_append]
      cases k with
      | closeObject => exact h.leadsTo_closeObject hentries
      | comma =>
          rw [commas_append_comma (by simpa using hne)]
          exact .name h hlt hentries
      | _ => trivial

theorem Arrived.leadsTo_readAll {r : Reading} (h : Arrived limit specials r ks) (ls : List Token) :
    LeadsTo limit specials (ks ++ ls) (readAll limit specials r ls) := by
  induction ls generalizing r ks with
  | nil => rwa [List.append_nil]
  | cons k ls ih =>
      have hstep := h.leadsTo_read k
      rw [readAll_cons, List.append_cons]
      cases hread : read limit specials r k with
      | ok r' =>
          rw [hread] at hstep
          exact ih hstep
      | error e =>
          rw [hread] at hstep
          cases e with
          | malformed => trivial
          | tooDeep c => exact hstep.append ls

theorem Arrived.exists_leaves {r : Reading} (h : Arrived limit specials r ks) : ∃ n ≤ limit.levels, Leaves n ks := by
  cases h with
  | complete hv => exact ⟨0, Nat.zero_le _, hv.leaves⟩
  | value h => exact ⟨_, h.length_le, h.leaves⟩
  | inArray h hlt => exact ⟨_, hlt, h.leaves.inside rfl rfl⟩
  | afterItem h hlt hitems hne => exact ⟨_, hlt, h.leaves.inside rfl (.commas hitems.leaves)⟩
  | inObject h hlt => exact ⟨_, hlt, h.leaves.inside rfl rfl⟩
  | name h hlt hentries => exact ⟨_, hlt, h.leaves.inside rfl (.withCommas hentries.leaves)⟩
  | colon h hlt hentries name =>
      have hname : Leaves 0 [.text name] := rfl
      exact ⟨_, hlt, h.leaves.inside rfl (.append (.withCommas hentries.leaves) hname)⟩
  | afterEntry h hlt hentries hne => exact ⟨_, hlt, h.leaves.inside rfl (.commas hentries.leaves)⟩

theorem Arrived.spells (h : Arrived limit specials (.complete v) ks) : Spells specials v ks := by
  cases h with
  | complete hv => exact hv

end Sound

section Parsing

variable {t : Text} {v : Value} {ks : List Token}

theorem leadsTo_start (limit : NestingLimit) (specials : Bool) (ks : List Token) :
    LeadsTo limit specials ks (readAll limit specials start ks) :=
  Arrived.leadsTo_readAll (.value .root) ks

theorem readAll_tooDeep (h : TooDeep limit specials ks) : ∃ c, readAll limit specials start ks = .error (.tooDeep c) := by
  obtain ⟨front, rest, v, ⟨tail, rfl⟩, hv, hdeep⟩ := h
  have hwhole : ComesTo (readAll limit specials start (front ++ rest)) (.ok (.complete v)) :=
    hv.readAs [] .value (.inl rfl)
  have hfront := leadsTo_start limit specials front
  rw [readAll_append] at hwhole ⊢
  cases hread : readAll limit specials start front with
  | ok r =>
      -- no more than the limit's containers are open wherever the reader arrives
      rw [hread] at hfront
      obtain ⟨n, hn, hleaves⟩ := Arrived.exists_leaves hfront
      rw [Leaves] at hleaves
      omega
  | error e =>
      rw [hread] at hwhole
      rcases hwhole with hwhole | ⟨c, hc⟩
      · exact absurd hwhole (by simp [bind, Except.bind])
      · obtain rfl : e = .tooDeep c := by simpa [bind, Except.bind] using hc
        exact ⟨c, rfl⟩

theorem parse_eq_ok_iff_complete :
    parse limit specials t = .ok v ↔ readAll limit specials start (tokens t) = .ok (.complete v) := by
  rw [parse]
  cases readAll limit specials start (tokens t) with
  | error e => simp [bind, Except.bind]
  | ok r => cases r <;> simp [bind, Except.bind, Reading.result]

theorem parse_eq_tooDeep_iff {c : Container} :
    parse limit specials t = .error (.tooDeep c) ↔ readAll limit specials start (tokens t) = .error (.tooDeep c) := by
  rw [parse]
  cases readAll limit specials start (tokens t) with
  | error e => simp [bind, Except.bind]
  | ok r => cases r <;> simp [bind, Except.bind, Reading.result]

theorem parse_tooDeep_iff : (∃ c, parse limit specials t = .error (.tooDeep c)) ↔ TooDeep limit specials (tokens t) := by
  simp only [parse_eq_tooDeep_iff]
  constructor
  · rintro ⟨c, hc⟩
    have hleads := leadsTo_start limit specials (tokens t)
    rwa [hc] at hleads
  · exact readAll_tooDeep

theorem parse_eq_ok_iff : parse limit specials t = .ok v ↔
    Spells specials v (tokens t) ∧ ¬ TooDeep limit specials (tokens t) := by
  rw [parse_eq_ok_iff_complete]
  constructor
  · intro h
    have hleads := leadsTo_start limit specials (tokens t)
    rw [h] at hleads
    refine ⟨Arrived.spells hleads, fun hdeep => ?_⟩
    obtain ⟨c, hc⟩ := readAll_tooDeep hdeep
    rw [h] at hc
    cases hc
  · rintro ⟨hv, hdeep⟩
    rcases hv.readAs [] .value (.inl rfl) with hread | ⟨c, hc⟩
    · exact hread
    · exact absurd (parse_tooDeep_iff.mp ⟨c, parse_eq_tooDeep_iff.mpr hc⟩) hdeep

theorem length_tokensFrom_le (n : Nat) (t : Text) : (tokensFrom n t).length ≤ t.length := by
  induction t generalizing n with
  | nil => cases n <;> exact Nat.le_refl 0
  | cons c t ih =>
      cases n with
      | succ n => exact (ih n).trans (Nat.le_succ _)
      | zero =>
          rw [tokensFrom]
          split
          · exact (ih 0).trans (Nat.le_succ _)
          · split
            · exact Nat.succ_le_succ (Nat.zero_le _)
            · exact Nat.succ_le_succ (ih _)

theorem parse_of_length_le {limit' : NestingLimit} (ht : t.length ≤ 200)
    (h : parse limit specials t = .ok v) : parse limit' specials t = .ok v := by
  refine parse_eq_ok_iff.mpr ⟨(parse_eq_ok_iff.mp h).1, ?_⟩
  rintro ⟨front, rest, w, hfront, -, hdeep⟩
  have hopened : opened front ≤ front.length := List.countP_le_length
  have htokens : (tokens t).length ≤ t.length := length_tokensFrom_le 0 t
  have hleast := limit'.least
  have hprefix := hfront.length_le
  omega

end Parsing

section Openings

def nested : Nat → Value
  | 0 => .arr []
  | n + 1 => .arr [nested n]

theorem spells_nested (n : Nat) : Spells specials (nested n)
    (List.replicate (n + 1) .openArray ++ List.replicate (n + 1) .closeArray) := by
  induction n with
  | zero => exact .array ItemsSpelled.nil
  | succ n ih =>
      have hrow := Spells.array (ItemsSpelled.nil.concat ih)
      rw [List.nil_append, List.map_singleton, List.map_singleton, commas, List.intercalate_singleton] at hrow
      rw [nested, List.replicate_succ (n := n + 1), List.replicate_succ' (n := n + 1)]
      simpa using hrow

theorem leaves_openings (n : Nat) : Leaves n (List.replicate n .openArray) := by
  induction n with
  | zero => rfl
  | succ n ih => exact .opening rfl ih

theorem tooDeep_of_openings {n : Nat} (h : limit.levels < n) : TooDeep limit specials (List.replicate n .openArray) := by
  obtain ⟨m, rfl⟩ := Nat.exists_eq_add_of_lt h
  refine ⟨_, _, _, List.prefix_rfl, spells_nested (limit.levels + m), ?_⟩
  have hleaves := leaves_openings (limit.levels + m + 1)
  rw [Leaves] at hleaves
  omega

theorem tokens_openings (n : Nat) : tokens (List.replicate n (ch '[')) = List.replicate n .openArray := by
  induction n with
  | zero => rfl
  | succ n ih => rw [List.replicate_succ, tokens_openArray, ih, List.replicate_succ]

end Openings

end CodeCompaction.Json
