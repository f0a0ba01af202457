import CodeCompaction.Minify.Basic
import CodeCompaction.Proofs.Json.Grammar

namespace CodeCompaction.Minify

open CodeCompaction.Text CodeCompaction.Literal CodeCompaction.Comment CodeCompaction.Json

variable {limit : NestingLimit}

section Comments

theorem jsonComment_flagless : jsonComment.Flagless := fun _ _ => rfl

theorem jsonComment_of_ne_slash {c : CodePoint} (hc : c ≠ '/') (t : Text) : jsonComment true (c :: t) = none := by
  simp [jsonComment, BlockMark.length?, behind, slashes, LineMark.pattern, opens, hc.symm]

theorem erase_jsonComment {t : Text} (h : ch '/' ∉ t) : erase jsonComment t = t := by
  have herase := erase_append_of_none jsonComment_flagless t [] (fun x y z ht => by
    refine jsonComment_of_ne_slash (fun heq => h ?_) _
    simp [ht, heq])
  rwa [List.append_nil, erase_nil, List.append_nil] at herase

theorem value_withoutJsonComments {ext t : Text} (hext : (grammarOf? ext).any (·.triple) = false)
    (ht : Legible t) : (withoutJsonComments ext t).value = t := by
  obtain ⟨s, hs⟩ := exists_shield?_of_legible ht false
  simp only [withoutJsonComments, tryShield, hext, hs, Logged.value_bind, Logged.value_pure]
  rw [erase_jsonComment (slash_not_mem_shielded ht hs), (shields_of_shield? hs).restore_text]

theorem value_json {ext t : Text} {v : Value} (hext : (grammarOf? ext).any (·.triple) = false)
    (hparse : parse limit false t = .ok v) (hfinite : isFinite v = true) :
    (json limit ext t).value = compact v := by
  have hclean := value_withoutJsonComments hext (legible_of_parse hparse)
  have hrewritten : rewritten limit t = .ok (compact v) := by
    simp only [rewritten, hparse, hfinite, if_true]
  simp only [json, Logged.value_bind, hclean, hrewritten, Logged.value_pure]

end Comments

section Short

def isCompactAlone (c : CodePoint) : Bool :=
  match parse .usual false [c] with
  | .ok v => compact v == [c]
  | .error _ => true

theorem isCompactAlone_ascii : ∀ n < 128, isCompactAlone (Char.ofNat n) = true := by
  decide +kernel

theorem compact_of_short {t : Text} {v : Value} (hparse : parse limit false t = .ok v)
    (hshort : t.byteLength < minSize) : compact v = t := by
  match t with
  | [] =>
      have hempty : parse limit false [] = .error .malformed := rfl
      rw [hempty] at hparse
      simp at hparse
  | [c] =>
      have hsize : c.utf8Size = 1 := by
        have hpos := c.utf8Size_pos
        rw [byteLength_cons, byteLength_nil, minSize] at hshort
        omega
      have hascii : c.toNat < 128 ∧ ch (Char.ofNat c.toNat) = c := by
        cases c with
        | ch a =>
            have ha := UInt32.le_iff_toNat_le.mp (Char.utf8Size_eq_one_iff.mp hsize)
            exact ⟨Nat.lt_succ_of_le ha, by rw [CodePoint.toNat_ch, Char.ofNat_toNat]⟩
        | lone n => simp [CodePoint.utf8Size] at hsize
      have hc := isCompactAlone_ascii c.toNat hascii.1
      have husual : parse .usual false [c] = .ok v := parse_of_length_le (by simp) hparse
      rw [hascii.2, isCompactAlone, husual] at hc
      simpa using hc
  | c :: d :: t =>
      have hc := c.utf8Size_pos
      have hd := d.utf8Size_pos
      rw [byteLength_cons, byteLength_cons, minSize] at hshort
      omega

end Short

theorem extensionKey_json : extensionKey "json".toText = "json".toText := by cbv

theorem grammarOf?_json : grammarOf? "json".toText = none := by
  rw [grammarOf?, extensionKey_json]
  decide +kernel

theorem familyOf_json : familyOf "json".toText = .json := by
  rw [familyOf, extensionKey_json]
  decide

theorem minify_json_eq (t : Text) : minify limit "json".toText t =
    if withinSize t then (json limit "json".toText t).value else t := by
  have hremove : remove "json".toText t = t := by
    rw [remove, removal, grammarOf?_json]
    split <;> rfl
  rw [minify_eq, hremove, familyOf_json]
  rfl

theorem minify_json_of_parse {t : Text} {v : Value} (hsize : t.byteLength ≤ maxSize)
    (hparse : parse limit false t = .ok v) (hfinite : isFinite v = true) :
    minify limit "json".toText t = compact v := by
  rw [minify_json_eq]
  split
  · exact value_json (by rw [grammarOf?_json]; rfl) hparse hfinite
  · rename_i hnot
    have hshort : t.byteLength < minSize := by
      simp only [withinSize, Bool.and_eq_true, decide_eq_true_eq, not_and, Nat.not_le] at hnot
      by_contra hle
      exact absurd hsize (Nat.not_le.mpr (hnot (Nat.not_lt.mp hle)))
    exact (compact_of_short hparse hshort).symm

theorem minify_json_canonical {t : Text} {v : Value} (hsize : t.byteLength ≤ maxSize)
    (hparse : parse limit false t = .ok v) (hcanonical : isCanonical v = true) (hdepth : depth v ≤ 200) :
    minify limit "json".toText t = compact v ∧ parse limit false (compact v) = .ok v ∧
      (∀ u : Text, u.byteLength ≤ maxSize → parse limit false u = .ok v →
        minify limit "json".toText u = minify limit "json".toText t) ∧
      minify limit "json".toText (minify limit "json".toText t) = minify limit "json".toText t := by
  have hfinite := isFinite_of_isCanonical v hcanonical
  have hback : parse limit false (compact v) = .ok v :=
    parse_compact hcanonical (hdepth.trans limit.least)
  have hmin := minify_json_of_parse hsize hparse hfinite
  refine ⟨hmin, hback, fun u hu huparse => ?_, ?_⟩
  · rw [minify_json_of_parse hu huparse hfinite, hmin]
  · rw [hmin]
    by_cases hfits : (compact v).byteLength ≤ maxSize
    · exact minify_json_of_parse hfits hback hfinite
    · rw [minify_json_eq, if_neg]
      simp [withinSize, hfits]

theorem minify_json_canonical_escapes :
    minify .usual "json".toText "\x7b\"a\" : [-0, \"\\u002f*'\"]\x7d".toText =
      "\x7b\"a\":[0,\"/*'\"]\x7d".toText := by
  let ms : List (Text × Value) := [("a".toText, .arr [.int 0, .str "/*'".toText])]
  have htokens : tokens "\x7b\"a\" : [-0, \"\\u002f*'\"]\x7d".toText =
      [.openObject, .text "a".toText, .colon, .openArray, .scalar (.int 0), .comma, .text "/*'".toText,
        .closeArray, .closeObject] := by cbv
  have hparse : parse .usual false "\x7b\"a\" : [-0, \"\\u002f*'\"]\x7d".toText = .ok (.obj ms) := by
    rw [parse, htokens]
    change Except.ok (Value.obj (settled ms)) = _
    rw [settled_of_nodup (by decide)]
  rw [(minify_json_canonical (by decide) hparse (by decide) (by decide)).1]
  cbv

end CodeCompaction.Minify
