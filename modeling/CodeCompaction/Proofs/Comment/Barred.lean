import CodeCompaction.Proofs.Comment.Closers
import CodeCompaction.Proofs.Comment.Deletion
import CodeCompaction.Proofs.Comment.Joining
import CodeCompaction.Proofs.Text.NormalForm

namespace CodeCompaction.Comment

open CodeCompaction.Text CodeCompaction.Literal

section Pattern

variable {opener closer a t u w z : Text} {bar : CodePoint} {n : Nat} {b : Bool}

theorem length_le_of_prefix_append_newline (hw : ch '\n' ∉ w) (ht : ¬ w <:+: ch '\n' :: t)
    (h : z ++ w <+: a ++ ch '\n' :: t) : (z ++ w).length ≤ a.length := by
  obtain ⟨r, hr⟩ := h
  rcases List.append_eq_append_iff.mp hr with ⟨s, rfl, -⟩ | ⟨s, hzw, hs⟩
  · simp
  · cases s with
    | nil => simp [hzw]
    | cons c s =>
        obtain ⟨rfl, rfl⟩ := List.cons.inj hs
        rcases List.append_eq_append_iff.mp hzw with ⟨v, rfl, rfl⟩ | ⟨v, rfl, hv⟩
        · exact absurd (by simp) hw
        · exact absurd ⟨v, r, by rw [← hv]; rfl⟩ ht

theorem barred_pattern_append (opener v : Text) : (BlockMark.barred opener bar closer).pattern b (opener ++ v) =
    if closer.isPrefixOf (v.dropWhile (· != bar)) then
      some (opener ++ v.takeWhile (· != bar) ++ closer).length
    else none := by
  rw [BlockMark.pattern, BlockMark.length?, behind,
    if_pos (List.isPrefixOf_iff_prefix.mpr (List.prefix_append ..)), List.drop_left]
  simp only [barredBody, drop_length_takeWhile]
  split
  · simp only [Option.map_some, List.length_append, Option.some.injEq]
    omega
  · rfl

theorem barred_takes_through_closer (h : (BlockMark.barred opener bar closer).pattern b u = some n) :
    ∃ z, z ++ closer <+: u ∧ n = (z ++ closer).length := by
  obtain ⟨v, rfl⟩ := (behind_eq_some_iff.mp h).1
  rw [barred_pattern_append] at h
  split at h
  · rename_i hclose
    obtain ⟨r, hr⟩ := List.isPrefixOf_iff_prefix.mp hclose
    refine ⟨opener ++ v.takeWhile (· != bar), ⟨r, ?_⟩, (Option.some.inj h).symm⟩
    rw [List.append_assoc, List.append_assoc, hr, List.takeWhile_append_dropWhile]
  · simp at h

theorem exists_erase_barred (hvisible : isVisibleBlock (.barred opener bar closer) = true)
    (ht : ¬ closer <:+: ch '\n' :: t) (a : Text) :
    ∃ a', erase (BlockMark.barred opener bar closer).pattern (a ++ ch '\n' :: t) =
      a' ++ erase (BlockMark.barred opener bar closer).pattern (ch '\n' :: t) := by
  have hblind := blind_block hvisible
  simp only [isVisibleBlock, Bool.and_eq_true] at hvisible
  have hclose : ch '\n' ∉ closer := fun hm => ne_newline_of_isVisible hvisible.2 hm rfl
  -- a match takes the front of what is left before the line feed, so the induction is on its length
  induction hn : a.length using Nat.strongRecOn generalizing a with
  | ind n ih =>
      cases a with
      | nil => exact ⟨[], rfl⟩
      | cons c a =>
          cases hmatch : (BlockMark.barred opener bar closer).pattern true (c :: a ++ ch '\n' :: t) with
          | none =>
              obtain ⟨a', ha'⟩ := ih a.length (by simp [← hn]) a rfl
              exact ⟨c :: a', (erase_cons_of_none hblind.flagless hmatch).trans (congrArg (c :: ·) ha')⟩
          | some k =>
              obtain ⟨z, hz, rfl⟩ := barred_takes_through_closer hmatch
              have hshort := length_le_of_prefix_append_newline hclose ht hz
              obtain ⟨r, hr⟩ : z ++ closer <+: c :: a :=
                List.prefix_of_prefix_length_le hz (List.prefix_append ..) hshort
              have hne : z ++ closer ≠ [] := by
                intro hnil
                rw [hnil] at hmatch
                exact hblind.positive _ hmatch
              have hlt : r.length < n := by
                have hpos := List.length_pos_iff.mpr hne
                rw [← hn, ← hr, List.length_append]
                omega
              obtain ⟨a', ha'⟩ := ih r.length hlt r rfl
              refine ⟨a', ?_⟩
              rw [← hr, List.append_assoc] at hmatch ⊢
              rw [erase_append_of_match hblind.flagless hne hmatch, ha']

theorem erase_barred_without_opener (hvisible : isVisibleBlock (.barred opener bar closer) = true)
    (ht : ¬ opener <:+: t) : erase (BlockMark.barred opener bar closer).pattern t = t := by
  have := erase_append_of_none (blind_block hvisible).flagless t [] (fun x y z hxyz => ?_)
  · rwa [List.append_nil, erase_nil, List.append_nil] at this
  · rw [List.append_nil, BlockMark.pattern, BlockMark.length?, behind, if_neg]
    intro hopen
    refine ht (hxyz ▸ ?_)
    exact (List.isPrefixOf_iff_prefix.mp hopen).isInfix.trans (List.suffix_append ..).isInfix

theorem erase_barred_append (hvisible : isVisibleBlock (.barred opener bar closer) = true)
    (hends : EndsLine a) (ha : ¬ opener <:+: a) (u : Text) :
    erase (BlockMark.barred opener bar closer).pattern (a ++ u) =
      a ++ erase (BlockMark.barred opener bar closer).pattern u := by
  have hblind := blind_block hvisible
  simp only [isVisibleBlock, Bool.and_eq_true] at hvisible
  have hopen : ch '\n' ∉ opener := fun hm => ne_newline_of_isVisible hvisible.1.1 hm rfl
  refine erase_append_of_none hblind.flagless a u (fun x c z hxz => ?_)
  have := hends.isPrefixOf_eq_false hopen ha hxz u
  rw [BlockMark.pattern, BlockMark.length?, behind, this, if_neg Bool.false_ne_true]

theorem erase_hash_append (ha : ch '#' ∉ a) (u : Text) :
    erase hash.pattern (a ++ u) = a ++ erase hash.pattern u := by
  refine erase_append_of_none (fun _ _ => rfl) a u (fun x c z hxz => ?_)
  have hc : c ≠ '#' := by
    rintro rfl
    exact ha (by simp [hxz])
  simp [hash, LineMark.pattern, opens, List.isPrefixOf, hc.symm]

theorem erase_hash_of_not_mem (ht : ch '#' ∉ t) : erase hash.pattern t = t := by
  have := erase_hash_append ht []
  rwa [List.append_nil, erase_nil, List.append_nil] at this

end Pattern

structure Barring (g : Grammar) (opener : Text) (bar : CodePoint) (closer : Text) : Prop where
  block : g.block? = some (.barred opener bar closer)
  line : g.line? = some hash
  doc : g.doc = false
  visible : isVisibleBlock (.barred opener bar closer) = true
  opens : ∃ e o, opener = e :: o ∧ e ≠ '#' ∧ isBlank e = false
  closes : closer.head? = some bar
  quoteless : (opener ++ closer).any isQuote = false

def isBarring (g : Grammar) (opener : Text) (bar : CodePoint) (closer : Text) : Bool :=
  g.line? == some hash && !g.doc && isVisibleBlock (.barred opener bar closer) &&
    opener.head?.any (fun e => e != ch '#' && !isBlank e) && closer.head? == some bar &&
    !(opener ++ closer).any isQuote

-- the extensions with such block comments
example : (grammars.filter fun p => p.2.block?.any fun m => match m with
      | .barred .. => true
      | _ => false).map Prod.fst = ["rb", "ps1", "psm1"].map String.toText := by
  decide +kernel

theorem isBarring_grammars : ∀ p ∈ grammars, ∀ m ∈ p.2.block?,
    (match m with
      | .barred opener bar closer => isBarring p.2 opener bar closer
      | _ => true) = true := by
  decide +kernel

theorem barring_of_grammarOf? {ext : Text} {g : Grammar} {opener : Text} {bar : CodePoint} {closer : Text}
    (hg : grammarOf? ext = some g) (hblock : g.block? = some (.barred opener bar closer)) :
    Barring g opener bar closer := by
  have h : isBarring g opener bar closer = true :=
    isBarring_grammars _ (mem_grammars_of_grammarOf? hg) _ hblock
  simp only [isBarring, Bool.and_eq_true] at h
  obtain ⟨⟨⟨⟨⟨hline, hdoc⟩, hvisible⟩, hopens⟩, hcloses⟩, hquotes⟩ := h
  refine ⟨hblock, by simpa using hline, by simpa using hdoc, hvisible, ?_, by simpa using hcloses, ?_⟩
  · cases opener with
    | nil => simp at hopens
    | cons e o => exact ⟨e, o, rfl, by simpa using hopens⟩
  · simpa using hquotes

structure SetApart (opener closer pre body post : Text) : Prop where
  quoteless : (pre ++ body ++ post).any isQuote = false
  hashless : ch '#' ∉ pre ++ post
  openerless : ¬ opener <:+: pre ∧ ¬ opener <:+: post
  closerless : ¬ closer <:+: post
  ends : EndsLine pre
  starts : [ch '\n'] <+: post
  closes_once : ¬ closer <:+: (opener ++ body ++ closer).dropLast

section Removal

variable {ext t opener closer pre body post : Text} {bar : CodePoint} {g : Grammar}

theorem remove_of_quoteless (hg : grammarOf? ext = some g) (hdoc : g.doc = false) (hsize : withinSize t = true)
    (hq : t.any isQuote = false) : remove ext t = tidied (eraseLines g (eraseBlocks g t)) := by
  cases hp : g.protects with
  | true =>
      have hshield : shield? g.triple t = some _ := shield?_of_quoteless (by simpa using hq)
      rw [remove_of_shield? hg hp hsize hshield, delete_of_not_doc hdoc]
      rfl
  | false => rw [remove_of_unprotected hg hp hsize, delete_of_not_doc hdoc]

theorem SetApart.remove_eq (h : SetApart opener closer pre body post) (hg : grammarOf? ext = some g)
    (hb : Barring g opener bar closer)
    (hsize : withinSize (pre ++ opener ++ body ++ closer ++ post) = true) :
    remove ext (pre ++ opener ++ body ++ closer ++ post) = tidied (pre ++ erase hash.pattern
      (erase (BlockMark.barred opener bar closer).pattern (opener ++ body ++ closer ++ post))) := by
  have hq : (pre ++ opener ++ body ++ closer ++ post).any isQuote = false := by
    have hmarks := hb.quoteless
    have htexts := h.quoteless
    simp only [List.any_append, Bool.or_eq_false_iff] at hmarks htexts ⊢
    tauto
  have hpre : ch '#' ∉ pre := fun hm => h.hashless (List.mem_append_left post hm)
  have hassoc : pre ++ opener ++ body ++ closer ++ post = pre ++ (opener ++ body ++ closer ++ post) := by
    simp only [List.append_assoc]
  rw [remove_of_quoteless hg hb.doc hsize hq, hassoc]
  simp only [eraseBlocks, eraseLines, hb.block, hb.line]
  rw [erase_barred_append hb.visible h.ends h.openerless.1, erase_hash_append hpre]

theorem Barring.erase_closed (hb : Barring g opener bar closer) (hbar : bar ∉ body) (u : Text) :
    erase (BlockMark.barred opener bar closer).pattern (opener ++ body ++ closer ++ u) =
      erase (BlockMark.barred opener bar closer).pattern u := by
  obtain ⟨e, o, hopener, -⟩ := hb.opens
  obtain ⟨c, hcloser⟩ := List.head?_eq_some_iff.mp hb.closes
  refine erase_append_of_match (blind_block hb.visible).flagless (by simp [hopener]) ?_
  have hfree : ∀ c ∈ body, (c != bar) = true :=
    fun c hc => bne_iff_ne.mpr (ne_of_mem_of_not_mem hc hbar)
  have hstop : (closer ++ u).takeWhile (· != bar) = [] ∧ (closer ++ u).dropWhile (· != bar) = closer ++ u := by
    simp [hcloser]
  have hclose : closer.isPrefixOf (closer ++ u) = true :=
    List.isPrefixOf_iff_prefix.mpr (List.prefix_append ..)
  rw [List.append_assoc, List.append_assoc, barred_pattern_append, List.takeWhile_append_of_pos hfree,
    List.dropWhile_append_of_pos hfree, hstop.1, hstop.2, if_pos hclose, List.append_nil]

theorem SetApart.pattern_none (h : SetApart opener closer pre body post) (hbar : bar ∈ body) :
    (BlockMark.barred opener bar closer).pattern true (opener ++ body ++ closer ++ post) = none := by
  obtain ⟨front, rest, rfl, hfront⟩ := List.eq_append_cons_of_mem hbar
  have hfree : ∀ c ∈ front, (c != bar) = true :=
    fun c hc => bne_iff_ne.mpr (ne_of_mem_of_not_mem hc hfront)
  have hstop : (front ++ bar :: (rest ++ (closer ++ post))).dropWhile (· != bar) =
      bar :: (rest ++ (closer ++ post)) := by
    rw [List.dropWhile_append_of_pos hfree, List.dropWhile_cons_of_neg (by simp)]
  simp only [List.append_assoc, List.cons_append]
  rw [barred_pattern_append, hstop, if_neg]
  -- a closer at the first bar would stand before the one at the end
  intro hclose
  have hlong : closer <+: (bar :: (rest ++ closer)) ++ post := by
    simpa using List.isPrefixOf_iff_prefix.mp hclose
  obtain ⟨y, hy⟩ := List.prefix_of_prefix_length_le hlong (List.prefix_append ..) (by simp; omega)
  have hne : y ≠ [] := by
    rintro rfl
    have hlength := congrArg List.length hy
    simp only [List.append_nil, List.length_cons, List.length_append] at hlength
    omega
  have hwhole : opener ++ (front ++ bar :: rest) ++ closer = opener ++ front ++ closer ++ y := by
    rw [List.append_assoc _ closer, hy]
    simp
  refine h.closes_once ⟨opener ++ front, y.dropLast, ?_⟩
  rw [hwhole, List.dropLast_append_of_ne_nil hne]

theorem SetApart.exists_left (h : SetApart opener closer pre body post) (hb : Barring g opener bar closer)
    (hbar : bar ∈ body) : ∃ e a, isBlank e = false ∧ erase hash.pattern
      (erase (BlockMark.barred opener bar closer).pattern (opener ++ body ++ closer ++ post)) =
        e :: (a ++ post) := by
  have hnone := h.pattern_none hbar
  obtain ⟨e, o, rfl, he, hplain⟩ := hb.opens
  obtain ⟨t, rfl⟩ := h.starts
  rw [List.singleton_append] at hnone ⊢
  obtain ⟨a, ha⟩ := exists_erase_barred hb.visible h.closerless (o ++ body ++ closer)
  have hblocks : erase (BlockMark.barred (e :: o) bar closer).pattern (e :: o ++ body ++ closer ++ ch '\n' :: t) =
      [e] ++ (a ++ ch '\n' :: t) := by
    refine (erase_cons_of_none (blind_block hb.visible).flagless hnone).trans (congrArg (e :: ·) ?_)
    exact ha.trans (congrArg (a ++ ·) (erase_barred_without_opener hb.visible h.openerless.2))
  have hhash : ch '#' ∉ t := fun hm => h.hashless (by simp [hm])
  have hvisible : ["#".toText].all isVisible = true := by decide
  have hlines : erase hash.pattern (a ++ ch '\n' :: t) = erase hash.pattern a ++ ch '\n' :: t :=
    (erase_append_newline (blind_anywhere hvisible) (local_anywhere hvisible) a t).trans
      (congrArg (erase hash.pattern a ++ ch '\n' :: ·) (erase_hash_of_not_mem hhash))
  refine ⟨e, erase hash.pattern a, hplain, ?_⟩
  rw [hblocks, erase_hash_append (by simpa using he.symm), hlines, List.singleton_append]

theorem remove_barred_block_iff (hg : grammarOf? ext = some g)
    (hblock : g.block? = some (.barred opener bar closer)) (h : SetApart opener closer pre body post)
    (hsize : withinSize (pre ++ opener ++ body ++ closer ++ post) = true) :
    remove ext (pre ++ opener ++ body ++ closer ++ post) = tidy (pre ++ post) ↔ bar ∉ body := by
  have hb := barring_of_grammarOf? hg hblock
  have hpost : ch '#' ∉ post := fun hm => h.hashless (List.mem_append_right pre hm)
  rw [h.remove_eq hg hb hsize, tidy_eq_tidied]
  constructor
  · intro heq hbar
    obtain ⟨e, a, he, hleft⟩ := h.exists_left hb hbar
    have hcount := congrArg (List.count e) heq
    rw [hleft, count_tidied he, count_tidied he] at hcount
    simp only [List.count_append, List.count_cons_self] at hcount
    omega
  · intro hbar
    rw [hb.erase_closed hbar, erase_barred_without_opener hb.visible h.openerless.2,
      erase_hash_of_not_mem hpost]

theorem remove_barred_block_iff_in_script :
    remove "ps1".toText ("a\n".toText ++ "<#".toText ++ " b\n <= c ".toText ++ "#>".toText ++ "\nd\n".toText) =
        tidy ("a\n".toText ++ "\nd\n".toText) ∧
      remove "rb".toText ([] ++ "=begin".toText ++ "\na == b\n".toText ++ "=end".toText ++ "\nd\n".toText) ≠
        tidy ([] ++ "\nd\n".toText) := by
  constructor
  · refine (remove_barred_block_iff
      (g := { line? := some hash, block? := some (.barred "<#".toText '#' "#>".toText) })
      (by decide) rfl ?_ (by decide)).mpr (by decide)
    exact ⟨by decide, by decide, by decide, by decide, .inr ⟨[ch 'a'], rfl⟩, by decide, by decide⟩
  · refine fun heq => (remove_barred_block_iff
      (g := { hashOnly with block? := some (.barred "=begin".toText '=' "=end".toText) })
      (by decide) rfl ?_ (by decide)).mp heq (by decide)
    exact ⟨by decide, by decide, by decide, by decide, .inl rfl, by decide, by decide⟩

theorem not_removed_with_bar_in_body : ¬ ∀ pre body post : Text,
    SetApart "=begin".toText "=end".toText pre body post →
    withinSize (pre ++ "=begin".toText ++ body ++ "=end".toText ++ post) = true →
    remove "rb".toText (pre ++ "=begin".toText ++ body ++ "=end".toText ++ post) = tidy (pre ++ post) := by
  intro h
  have hapart : SetApart "=begin".toText "=end".toText [] "\na = b\n".toText "\n".toText :=
    ⟨by decide, by decide, by decide, by decide, .inl rfl, by decide, by decide⟩
  have hleft : remove "rb".toText "=begin\na = b\n=end\n".toText = "=begin\na = b\n=end\n".toText := by cbv
  have hgone : tidy "\n".toText = "\n".toText := by cbv
  have heq := h [] "\na = b\n".toText "\n".toText hapart (by decide)
  exact absurd (hleft.symm.trans (heq.trans hgone)) (by decide)

end Removal

end CodeCompaction.Comment
