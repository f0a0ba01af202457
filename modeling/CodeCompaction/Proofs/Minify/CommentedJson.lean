import Mathlib
import CodeCompaction.Proofs.Comment.Blindness
import CodeCompaction.Proofs.Json.Woven
import CodeCompaction.Proofs.Minify.CanonicalJson

namespace CodeCompaction.Minify

open CodeCompaction.Text CodeCompaction.Literal CodeCompaction.Comment CodeCompaction.Json

section Patterns

variable {body t : Text}

theorem starBody_of_remark (h : ∀ c ∈ body, isRemark c = true) (t : Text) :
    starBody (body ++ ch '*' :: ch '/' :: t) = some (body.length + 2) := by
  induction body with
  | nil => rfl
  | cons c body ih =>
      have hc : (c == '*') = false := by
        have := h c (List.mem_cons_self ..)
        simp only [isRemark, Bool.and_eq_true, bne_iff_ne] at this
        simpa using this.2
      rw [List.cons_append, starBody, hc, if_neg Bool.false_ne_true,
        ih (fun d hd => h d (List.mem_cons_of_mem _ hd)), Option.map_some, List.length_cons]

theorem starred_length?_block (h : ∀ c ∈ body, isRemark c = true) (t : Text) :
    BlockMark.starred.length? (ch '/' :: ch '*' :: (body ++ ch '*' :: ch '/' :: t)) = some (body.length + 4) := by
  change (starBody (body ++ ch '*' :: ch '/' :: t)).map (· + 2) = _
  rw [starBody_of_remark h, Option.map_some]

theorem starred_length?_of_ne_slash {c : CodePoint} (hc : c ≠ '/') (t : Text) :
    BlockMark.starred.length? (c :: t) = none := by
  simp [BlockMark.length?, behind, hc.symm]

theorem starred_length?_of_ne_star (h : t.head? ≠ some (ch '*')) :
    BlockMark.starred.length? (ch '/' :: t) = none := by
  cases t with
  | nil => rfl
  | cons c t =>
      have hc : '*' ≠ c := by
        rintro rfl
        exact h rfl
      simp [BlockMark.length?, behind, hc]

theorem slashes_pattern_of_ne_slash {c : CodePoint} (hc : c ≠ '/') (b : Bool) (t : Text) :
    slashes.pattern b (c :: t) = none := by
  simp [slashes, LineMark.pattern, opens, hc.symm]

theorem slashes_pattern_line (hfeed : ch '\n' ∉ body) (ht : atLineEnd t = true) (b : Bool) :
    slashes.pattern b (ch '/' :: ch '/' :: (body ++ t)) = some (body.length + 2) := by
  have hline : lineLength (ch '/' :: ch '/' :: (body ++ t)) = body.length + 2 := by
    have hbody : ∀ c ∈ body, (c != '\n') = true := by
      intro c hc
      rw [bne_iff_ne]
      rintro rfl
      exact hfeed hc
    have hstop : t.takeWhile (· != ch '\n') = [] := by
      cases t with
      | nil => rfl
      | cons c t => simpa [atLineEnd] using ht
    rw [lineLength, List.takeWhile_cons_of_pos (by decide), List.takeWhile_cons_of_pos (by decide),
      List.takeWhile_append_of_pos hbody, hstop, List.append_nil, List.length_cons, List.length_cons]
  rw [slashes, LineMark.pattern, hline]
  rfl

end Patterns

structure Unweaves (p : Pattern) (blocks lines left : Bool) : Prop where
  flagless : p.Flagless
  of_ne_slash : ∀ (c : CodePoint) (t : Text), c ≠ '/' → p true (c :: t) = none
  block : blocks = true → ∀ (body t : Text), (∀ c ∈ body, isRemark c = true) →
    p true (ch '/' :: ch '*' :: (body ++ ch '*' :: ch '/' :: t)) = some (body.length + 4)
  line : lines = true → left = false → ∀ (body t : Text), ch '\n' ∉ body → atLineEnd t = true →
    p true (ch '/' :: ch '/' :: (body ++ t)) = some (body.length + 2)
  standing : left = true → ∀ t : Text, t.head? ≠ some (ch '*') → p true (ch '/' :: t) = none

theorem unweaves_blocks (lines : Bool) : Unweaves BlockMark.starred.pattern true lines true where
  flagless := fun _ _ => rfl
  of_ne_slash := fun _ t hc => starred_length?_of_ne_slash hc t
  block := fun _ _ t h => starred_length?_block h t
  line := fun _ hleft => absurd hleft (by decide)
  standing := fun _ _ h => starred_length?_of_ne_star h

theorem unweaves_lines : Unweaves slashes.pattern false true false where
  flagless := fun _ _ => rfl
  of_ne_slash := fun _ t hc => slashes_pattern_of_ne_slash hc true t
  block := fun hblocks => absurd hblocks Bool.false_ne_true
  line := fun _ _ _ _ hfeed ht => slashes_pattern_line hfeed ht true
  standing := fun hleft => absurd hleft Bool.false_ne_true

theorem unweaves_both : Unweaves jsonComment true true false where
  flagless := jsonComment_flagless
  of_ne_slash := fun _ t hc => jsonComment_of_ne_slash hc t
  block := fun _ _ t h => by
    rw [jsonComment, starred_length?_block h]
    rfl
  line := fun _ _ _ _ hfeed ht => by
    rw [jsonComment, slashes_pattern_line hfeed ht, starred_length?_of_ne_star (by simp)]
    rfl
  standing := fun hleft => absurd hleft Bool.false_ne_true

section Erasing

structure Erased (p : Pattern) (u u' : Text) : Prop where
  sublist : u'.Sublist u
  literals_eq : literals (split false u') = literals (split false u)
  render_eq : ∀ c ∈ sentinels, ∀ i, erase p (renderFrom [c] i (split false u)) =
    renderFrom [c] i (split false u')

variable {p : Pattern} {blocks lines left : Bool} {a t u u' : Text}

theorem Unweaves.erase_append (h : Unweaves p blocks lines left) (ha : ch '/' ∉ a) (t : Text) :
    erase p (a ++ t) = a ++ erase p t := by
  refine erase_append_of_none h.flagless a t ?_
  rintro x y z rfl
  refine h.of_ne_slash y _ ?_
  rintro rfl
  exact ha (by simp)

theorem renderFrom_plain_append (mark : Text) (i : Nat) (a : Text) (ps : List Piece) :
    renderFrom mark i (a.map .plain ++ ps) = a ++ renderFrom mark i ps := by
  induction a with
  | nil => rfl
  | cons c a ih => exact congrArg (c :: ·) ih

theorem literals_plain_append (a : Text) (ps : List Piece) :
    literals (a.map .plain ++ ps) = literals ps := by
  induction a with
  | nil => rfl
  | cons c a ih => exact ih

theorem slash_not_mem_placeholder {c : CodePoint} (hc : c ∈ sentinels) (i : Nat) :
    ch '/' ∉ placeholder [c] i :=
  fun hm => slash_not_hidden ((hides_placeholder hc id i).2 _ hm)

theorem any_isQuote_of_bare (h : ∀ c ∈ a, isBare c = true) : a.any isQuote = false := by
  rw [List.any_eq_false]
  intro c hc
  have := h c hc
  simp only [isBare, Bool.and_eq_true, Bool.not_eq_true'] at this
  simp [this.1.1]

theorem slash_not_mem_of_bare (h : ∀ c ∈ a, isBare c = true) : ch '/' ∉ a :=
  fun hm => absurd (h _ hm) (by decide)

namespace Erased

theorem nil (p : Pattern) : Erased p [] [] := by
  refine ⟨.slnil, rfl, fun _ _ _ => ?_⟩
  rw [split, renderFrom, erase_nil]

theorem append {b : Text} (ha : a.any isQuote = false) (hb : b.Sublist a)
    (hab : ∀ c ∈ sentinels, ∀ i, erase p (a ++ renderFrom [c] i (split false u)) =
      b ++ erase p (renderFrom [c] i (split false u)))
    (h : Erased p u u') : Erased p (a ++ u) (b ++ u') := by
  have hbare : b.any isQuote = false := by
    rw [List.any_eq_false] at ha ⊢
    exact fun c hc => ha c (hb.subset hc)
  refine ⟨hb.append h.sublist, ?_, fun c hc i => ?_⟩
  · rw [split_append_of_no_quote ha, split_append_of_no_quote hbare, literals_plain_append,
      literals_plain_append, h.literals_eq]
  · rw [split_append_of_no_quote ha, split_append_of_no_quote hbare, renderFrom_plain_append,
      renderFrom_plain_append, hab c hc, h.render_eq c hc]

theorem bare_append (hp : Unweaves p blocks lines left) (ha : ∀ c ∈ a, isBare c = true)
    (h : Erased p u u') : Erased p (a ++ u) (a ++ u') :=
  h.append (any_isQuote_of_bare ha) (List.Sublist.refl a)
    (fun _ _ _ => hp.erase_append (slash_not_mem_of_bare ha) _)

theorem string (hp : Unweaves p blocks lines left) {w : Text} (hu : ClosesAt (w ++ u) w.length)
    (hu' : ClosesAt (w ++ u') w.length) (h : Erased p u u') :
    Erased p (ch '"' :: (w ++ u)) (ch '"' :: (w ++ u')) := by
  have hsplit : ∀ t, ClosesAt (w ++ t) w.length →
      split false (ch '"' :: (w ++ t)) = .literal (ch '"' :: w) :: split false t := by
    intro t ht
    have hbody : bodyLength false '"' (w ++ t) = w.length := ht.quotedEnd_eq
    rw [split, if_pos (by decide)]
    simp only [hbody, List.take_left, List.drop_left]
  refine ⟨(h.sublist.append_left w).cons_cons (ch '"'), ?_, fun c hc i => ?_⟩
  · rw [hsplit u hu, hsplit u' hu', literals_literal, literals_literal, h.literals_eq]
  · rw [hsplit u hu, hsplit u' hu', renderFrom, renderFrom,
      hp.erase_append (slash_not_mem_placeholder hc i), h.render_eq c hc]

end Erased

theorem atLineEnd_render (h : atLineEnd u = true) (mark : Text) (i : Nat) :
    atLineEnd (renderFrom mark i (split false u)) = true := by
  cases u with
  | nil => simp [split, renderFrom, atLineEnd]
  | cons c u =>
      obtain rfl : c = '\n' := by simpa [atLineEnd] using h
      rw [split, if_neg (by decide), renderFrom]
      rfl

theorem Unweaves.erase_block (hp : Unweaves p true lines left) (h : ∀ c ∈ a, isRemark c = true)
    (t : Text) : erase p (ch '/' :: ch '*' :: (a ++ [ch '*', '/']) ++ t) = erase p t := by
  refine erase_append_of_match hp.flagless (List.cons_ne_nil _ _) ?_
  have hmatch := hp.block rfl a t h
  simpa using hmatch

theorem Unweaves.erase_line (hp : Unweaves p blocks true false) (hfeed : ch '\n' ∉ a)
    (ht : atLineEnd t = true) : erase p (ch '/' :: ch '/' :: a ++ t) = erase p t := by
  refine erase_append_of_match hp.flagless (List.cons_ne_nil _ _) ?_
  have hmatch := hp.line rfl rfl a t hfeed ht
  simpa using hmatch

theorem Unweaves.erase_standing (hp : Unweaves p blocks lines true) (h : ∀ c ∈ a, isRemark c = true)
    (ht : atLineEnd t = true) : erase p (ch '/' :: ch '/' :: a ++ t) = ch '/' :: ch '/' :: a ++ erase p t := by
  have hstar : (a ++ t).head? ≠ some (ch '*') := by
    cases a with
    | nil =>
        cases t with
        | nil => simp
        | cons c t =>
            obtain rfl : c = '\n' := by simpa [atLineEnd] using ht
            simp
    | cons c a =>
        have hc := h c (List.mem_cons_self ..)
        rintro heq
        obtain rfl : c = '*' := by simpa using heq
        exact absurd hc (by decide)
  have hfirst : p true (ch '/' :: ch '/' :: (a ++ t)) = none := hp.standing rfl _ (by simp)
  have hsecond : p true (ch '/' :: (a ++ t)) = none := hp.standing rfl _ hstar
  rw [List.cons_append, List.cons_append, erase_cons_of_none hp.flagless hfirst,
    erase_cons_of_none hp.flagless hsecond,
    hp.erase_append (slash_not_mem_of_bare (isBare_of_isRemark h))]
  rfl

theorem exists_erased (hp : Unweaves p blocks lines left) (h : Woven blocks lines t u) :
    ∃ u', Woven false left t u' ∧ Erased p u u' ∧
      (u.head?.all isSpace = true → u'.head? = u.head?) := by
  induction h with
  | nil => exact ⟨[], .nil, .nil p, fun _ => rfl⟩
  | @token c w t u k hc hat hk _ ih =>
      obtain ⟨u', hw, he, -⟩ := ih
      refine ⟨c :: (w ++ u'), .token hc hat hk hw, ?_, fun h => by simp [hc] at h⟩
      by_cases hquote : c = '"'
      · subst hquote
        exact he.string hp (closesAt_of_token hat hk u) (closesAt_of_token hat hk u')
      · exact he.bare_append hp (token_bare hat hk hquote)
  | @blank c t u hc _ ih =>
      obtain ⟨u', hw, he, -⟩ := ih
      have hbare : ∀ d ∈ [c], isBare d = true := by simpa using isBare_of_isSpace hc
      exact ⟨c :: u', .blank hc hw, he.bare_append hp hbare, fun _ => rfl⟩
  | @spared c t u hc hu _ ih =>
      obtain ⟨u', hw, he, hhead⟩ := ih
      exact ⟨u', .spared hc (by rw [hhead hu, hu]) hw, he, hhead⟩
  | @block body t u hblocks hbody _ ih =>
      obtain ⟨u', hw, he, -⟩ := ih
      subst hblocks
      have hquote : (ch '/' :: ch '*' :: (body ++ [ch '*', '/'])).any isQuote = false := by
        simp only [List.any_cons, List.any_append, any_isQuote_of_bare (isBare_of_isRemark hbody)]
        decide
      have herased := he.append hquote (List.nil_sublist _) (fun _ _ _ => hp.erase_block hbody _)
      rw [List.cons_append, List.cons_append, List.append_assoc] at herased
      exact ⟨u', hw, herased, fun h => absurd h Bool.false_ne_true⟩
  | @line body t u hlines hbody hfeed hu _ ih =>
      obtain ⟨u', hw, he, hhead⟩ := ih
      subst hlines
      have hquote : (ch '/' :: ch '/' :: body).any isQuote = false := by
        simp only [List.any_cons, any_isQuote_of_bare (isBare_of_isRemark hbody)]
        decide
      cases left with
      | false =>
          have herased := he.append hquote (List.nil_sublist _)
            (fun c _ i => hp.erase_line hfeed (atLineEnd_render hu [c] i))
          exact ⟨u', hw, herased, fun h => absurd h Bool.false_ne_true⟩
      | true =>
          have hu' : atLineEnd u' = true := by
            have hsame := hhead (all_isSpace_of_atLineEnd hu)
            cases u <;> cases u' <;> simp_all [atLineEnd]
          have herased := he.append hquote (List.Sublist.refl _)
            (fun c _ i => hp.erase_standing hbody (atLineEnd_render hu [c] i))
          exact ⟨_, .line rfl hbody hfeed hu' hw, herased, fun h => absurd h Bool.false_ne_true⟩

theorem Erased.shields {s : Shielded} (h : Erased p u u') (hs : Shields false u s) :
    Shields false u' { s with text := erase p s.text } where
  sentinel_mem := hs.sentinel_mem
  text_eq := by
    have hrender := h.render_eq s.sentinel hs.sentinel_mem 0
    rw [renderFrom_eq_fill, renderFrom_eq_fill] at hrender
    rw [hs.text_eq]
    exact hrender
  spans_eq := by rw [hs.spans_eq, h.literals_eq]
  absent := hs.absent.imp id (fun hfree hm => hfree (h.sublist.subset hm))

theorem Erased.restore_erase {s : Shielded} (h : Erased p u u') (hs : Shields false u s) :
    s.restore (erase p s.text) = u' :=
  (h.shields hs).restore_text

end Erasing

section Transparency

variable {limit : NestingLimit} {ext t u : Text} {v : Value}

theorem value_json_of_woven (hext : (grammarOf? ext).any (·.triple) = false)
    (h : Woven true true t u) (hparse : parse limit false t = .ok v) (hfinite : isFinite v = true) :
    (json limit ext u).value = compact v := by
  obtain ⟨s, hs⟩ := exists_shield?_of_sentinel_free h.sentinel_not_mem false
  obtain ⟨u', hw, he, -⟩ := exists_erased unweaves_both h
  have hclean : (withoutJsonComments ext u).value = u' := by
    simp only [withoutJsonComments, tryShield, hext, hs, Logged.value_bind, Logged.value_pure]
    exact he.restore_erase (shields_of_shield? hs)
  have hrewritten : rewritten limit u' = .ok (compact v) := by
    simp only [rewritten, parse_of_woven hw hparse, hfinite, if_true]
  simp only [json, Logged.value_bind, hclean, hrewritten, Logged.value_pure]

theorem remove_of_woven (hg : grammarOf? ext = some slashStar) (hsize : withinSize u = true)
    (h : Woven true true t u) : Woven false false t (remove ext u) := by
  obtain ⟨s, hs⟩ := exists_shield?_of_sentinel_free h.sentinel_not_mem false
  obtain ⟨u₁, hw₁, he₁, -⟩ := exists_erased (unweaves_blocks true) h
  obtain ⟨u₂, hw₂, he₂, -⟩ := exists_erased unweaves_lines hw₁
  have hshields := he₁.shields (shields_of_shield? hs)
  have hrestore : s.restore (delete slashStar (some s) s.text) = u₂ := he₂.restore_erase hshields
  have hshield : shield? slashStar.triple u = some s := hs
  have hprotects : slashStar.protects = true := rfl
  have hremoval : removal ext u = .stripped (stripShielded slashStar s) := by
    simp only [removal, hsize, hg, Bool.not_true, Bool.false_eq_true, if_false, hprotects, if_true, hshield]
  have hremove : remove ext u = tidy u₂ := by
    rw [← hrestore, remove, hremoval]
    rfl
  rw [hremove, tidy_eq_tidied]
  exact hw₂.tidied

theorem grammarOf?_of_familyOf_json (h : familyOf ext = .json) :
    grammarOf? ext = none ∨ grammarOf? ext = some slashStar := by
  have hkey : lists jsonExtensions (extensionKey ext) = true := by
    by_contra hnot
    rw [Bool.not_eq_true] at hnot
    rw [familyOf] at h
    simp only [hnot, Bool.false_eq_true, if_false] at h
    split_ifs at h
  have hcases : extensionKey ext = "json".toText ∨ extensionKey ext = "jsonc".toText := by
    simp only [lists, jsonExtensions, List.any_cons, List.any_nil, Bool.or_false, Bool.or_eq_true,
      beq_iff_eq] at hkey
    exact hkey.imp Eq.symm Eq.symm
  rcases hcases with hjson | hjsonc
  · left
    rw [grammarOf?, hjson]
    decide +kernel
  · right
    rw [grammarOf?, hjsonc]
    decide +kernel

theorem minify_of_familyOf_json (h : familyOf ext = .json) (hsize : withinSize u = true) :
    minify limit ext u = (json limit ext (remove ext u)).value := by
  rw [minify_eq, if_pos hsize, h]
  rfl

theorem minify_commented_json (hext : familyOf ext = .json) (hparse : parse limit false t = .ok v)
    (hcanonical : isCanonical v = true) (hdepth : depth v ≤ 200) (hwoven : Woven true true t u)
    (hsize : withinSize u = true) :
    minify limit ext u = compact v ∧ parse limit false (compact v) = .ok v := by
  have hfinite := isFinite_of_isCanonical v hcanonical
  refine ⟨?_, parse_compact hcanonical (hdepth.trans limit.least)⟩
  rw [minify_of_familyOf_json hext hsize]
  rcases grammarOf?_of_familyOf_json hext with hnone | hsome
  · have hremove : remove ext u = u := by
      rw [remove, removal, hnone]
      split <;> rfl
    rw [hremove]
    exact value_json_of_woven (by rw [hnone]; rfl) hwoven hparse hfinite
  · have hremove := remove_of_woven hsome hsize hwoven
    exact value_json (by rw [hsome]; rfl) (parse_of_woven hremove hparse) hfinite

theorem minify_commented_json_marks_in_string :
    minify .usual "jsonc".toText "\x7b//a\n\"u\":/*b*/\"//\"\x7d//c".toText = "\x7b\"u\":\"//\"\x7d".toText := by
  have hend : Woven true true [ch '\x7d'] [ch '\x7d', '/', '/', 'c'] :=
    .token (w := []) (k := .closeObject) rfl rfl (by simp)
      (@Woven.line true true [ch 'c'] [] [] rfl (by simp [isRemark, isBare, isQuote, defaultSentinel]) (by decide)
        rfl .nil)
  have hvalue : Woven true true [ch '"', '/', '/', '"', '\x7d'] [ch '"', '/', '/', '"', '\x7d', '/', '/', 'c'] :=
    .token (w := [ch '/', '/', '"']) (k := .text [ch '/', '/']) rfl rfl (by simp) hend
  have hcolon : Woven true true [ch ':', '"', '/', '/', '"', '\x7d']
      [ch ':', '/', '*', 'b', '*', '/', '"', '/', '/', '"', '\x7d', '/', '/', 'c'] :=
    .token (w := []) (k := .colon) rfl rfl (by simp)
      (@Woven.block true true [ch 'b'] _ _ rfl (by simp [isRemark, isBare, isQuote, defaultSentinel]) hvalue)
  have hname : Woven true true [ch '"', 'u', '"', ':', '"', '/', '/', '"', '\x7d']
      [ch '"', 'u', '"', ':', '/', '*', 'b', '*', '/', '"', '/', '/', '"', '\x7d', '/', '/', 'c'] :=
    .token (w := [ch 'u', '"']) (k := .text [ch 'u']) rfl rfl (by simp) hcolon
  have hwoven : Woven true true "\x7b\"u\":\"//\"\x7d".toText "\x7b//a\n\"u\":/*b*/\"//\"\x7d//c".toText :=
    .token (w := []) (k := .openObject) rfl rfl (by simp)
      (@Woven.line true true [ch 'a'] _ _ rfl (by simp [isRemark, isBare, isQuote, defaultSentinel]) (by decide)
        rfl (.blank rfl hname))
  have htokens : tokens "\x7b\"u\":\"//\"\x7d".toText =
      [.openObject, .text [ch 'u'], .colon, .text [ch '/', '/'], .closeObject] := by cbv
  have hparse : parse .usual false "\x7b\"u\":\"//\"\x7d".toText = .ok (.obj [([ch 'u'], .str [ch '/', '/'])]) := by
    rw [parse, htokens]
    change Except.ok (Value.obj (settled [([ch 'u'], .str [ch '/', '/'])])) = _
    rw [settled_of_nodup (by decide)]
  have hkey : extensionKey "jsonc".toText = "jsonc".toText := by cbv
  have hfamily : familyOf "jsonc".toText = .json := by
    rw [familyOf, hkey]
    decide
  rw [(minify_commented_json hfamily hparse (by decide) (by decide) hwoven (by decide)).1]
  decide +kernel

end Transparency

end CodeCompaction.Minify
