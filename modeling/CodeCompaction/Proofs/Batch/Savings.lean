import Mathlib
import CodeCompaction.Proofs.Batch.Accounting
import CodeCompaction.Proofs.Minify.Shrinking

namespace CodeCompaction.Batch

open CodeCompaction.Text CodeCompaction.Minify

section Sums

variable {xs : List Treated}

def savingsOf (xs : List Treated) : List Int :=
  (List.range' 1 xs.length).map fun n => ((xs.take n).map Treated.saved).sum

theorem saved_reported (all : List Record) (xs : List Treated) :
    (reported all xs).map Progress.saved = savingsOf xs := by
  rw [reported, savingsOf, List.map_map, ← List.zipIdx_map_snd 1 xs, List.map_map]
  rfl

theorem sum_take_le (h : ∀ x ∈ xs, 0 ≤ x.saved) {i j : Nat} (hij : i ≤ j) :
    ((xs.take i).map Treated.saved).sum ≤ ((xs.take j).map Treated.saved).sum := by
  have hsub : (xs.take i).Sublist (xs.take j) := (List.take_prefix_take_left hij).sublist
  refine (hsub.map _).sum_le_sum (fun n hn => ?_)
  obtain ⟨x, hx, rfl⟩ := List.mem_map.mp hn
  exact h x (List.mem_of_mem_take hx)

theorem savingsOf_nonneg (h : ∀ x ∈ xs, 0 ≤ x.saved) : ∀ n ∈ savingsOf xs, 0 ≤ n := by
  intro n hn
  obtain ⟨i, -, rfl⟩ := List.mem_map.mp hn
  exact sum_take_le h (Nat.zero_le i)

theorem pairwise_savingsOf (h : ∀ x ∈ xs, 0 ≤ x.saved) : (savingsOf xs).Pairwise (· ≤ ·) := by
  rw [savingsOf, List.pairwise_map]
  exact (List.pairwise_lt_range' (s := 1)).imp (fun hlt => sum_take_le h hlt.le)

end Sums

variable (limit : Json.NestingLimit)

theorem saved_treat_nonneg {m : Mode} {r : Record}
    (h : m = .minify → familyOf (Path.extensionOfName r.name) ≠ .json) : 0 ≤ (treat limit m r).saved := by
  have hle : byteLength (m.apply limit (Path.extensionOfName r.name) r.content) ≤ byteLength r.content :=
    byteLength_apply_le (fun hm hfamily _ => absurd hfamily (h hm))
  have hsaved : (treat limit m r).saved =
      (byteLength r.content : Int) - byteLength (m.apply limit (Path.extensionOfName r.name) r.content) := rfl
  omega

theorem sizes_do_not_grow :
    (∀ (m : Mode) (ext t : Text),
      (m = .minify → familyOf ext = .json → withinSize t = true → FallsBack limit ext t) →
        byteLength (m.apply limit ext t) ≤ byteLength t) ∧
    ∀ (m : Mode) (listener? : Option Listener) (rs : List Record),
      (m = .minify → ∀ r ∈ rs, familyOf (Path.extensionOfName r.name) ≠ .json) →
        let savings := (process m (byMode limit m) listener? rs).events.map Progress.saved
        (∀ n ∈ savings, 0 ≤ n) ∧ savings.Pairwise (· ≤ ·) := by
  refine ⟨fun m ext t h => byteLength_apply_le h, fun m listener? rs h => ?_⟩
  intro savings
  have hsaved : ∀ x ∈ rs.map (treat limit m), 0 ≤ x.saved := by
    intro x hx
    obtain ⟨r, hr, rfl⟩ := List.mem_map.mp hx
    exact saved_treat_nonneg limit (fun hm => h hm r hr)
  have hsavings : savings = if listener?.isSome then savingsOf (rs.map (treat limit m)) else [] := by
    simp only [savings, process_byMode]
    split
    · exact saved_reported rs _
    · rfl
  rw [hsavings]
  split
  · exact ⟨savingsOf_nonneg hsaved, pairwise_savingsOf hsaved⟩
  · simp

theorem sizes_do_not_grow_in_fallback :
    let rs : List Record := [
      { id := [ch '1'], name := "f.py".toText, content := "def f():\n  '''doc'''\n".toText },
      { id := [ch '2'], name := "g.html".toText, content := "<p>\t\n<b> x </b>".toText }]
    let savings := (process .minify (byMode .usual .minify) (some fun _ => none) rs).events.map Progress.saved
    FallsBack .usual "json".toText "[1 ,  2".toText ∧
      byteLength (Mode.minify.apply .usual "json".toText "[1 ,  2".toText) ≤ 7 ∧
      (∀ n ∈ savings, 0 ≤ n) ∧ savings.Pairwise (· ≤ ·) := by
  intro rs savings
  have hfault : FallsBack .usual "json".toText "[1 ,  2".toText := ⟨.unreadable .malformed, by cbv⟩
  have hnames : ∀ name ∈ rs.map Record.name, familyOf (Path.extensionOfName name) ≠ .json := by
    decide +kernel
  exact ⟨hfault, (sizes_do_not_grow .usual).1 .minify _ _ (fun _ _ _ => hfault),
    (sizes_do_not_grow .usual).2 .minify _ rs (fun _ r hr => hnames _ (List.mem_map_of_mem hr))⟩

end CodeCompaction.Batch
