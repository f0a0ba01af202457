import CodeCompaction.Literal.Scan

namespace CodeCompaction.Literal

open CodeCompaction.Text

def interpolationEnd : Nat → Text → Nat
  | 0, _ => 0
  | _ + 1, [] => 0
  | d + 1, c :: cs =>
      interpolationEnd (if c == '\x7b' then d + 2 else if c == '\x7d' then d else d + 1) cs + 1

def templateLoops : Text → Nat
  | [] => 0
  | ch '\\' :: _ :: cs => templateLoops cs + 2
  | ch '$' :: ch '\x7b' :: cs =>
      templateLoops (cs.drop (interpolationEnd 1 cs)) + interpolationEnd 1 cs + 2
  | c :: cs => if c == '\x60' then 1 else templateLoops cs + 1
termination_by t => t.length
decreasing_by all_goals simp_wf; try omega

structure Pass where
  depth : Nat := 0
  escaped : Bool := false

namespace Pass

def step (s : Pass) (c : CodePoint) (next : Option CodePoint) : Option Pass :=
  match s with
  | { depth, escaped := true } => some { depth }
  | { depth := 0, escaped := false } =>
      if c == '\\' && next.isSome then some { escaped := true }
      else if c == '\x60' then none
      else if c == '$' && next == some (ch '\x7b') then some { depth := 1, escaped := true }
      else some {}
  | { depth := d + 1, escaped := false } =>
      if c == '\x7b' then some { depth := d + 2 }
      else if c == '\x7d' then some { depth := d }
      else some { depth := d + 1 }

def run (s : Pass) : Text → Nat
  | [] => 0
  | c :: cs =>
      match s.step c cs.head? with
      | none => 1
      | some s' => s'.run cs + 1

theorem run_escaped (d : Nat) (c : CodePoint) (t : Text) :
    ({ depth := d, escaped := true } : Pass).run (c :: t) = ({ depth := d } : Pass).run t + 1 := rfl

theorem run_eq_templateEnd (d : Nat) (t : Text) : ({ depth := d } : Pass).run t = templateEnd d t := by
  fun_induction templateEnd d t with
  | case1 => rfl
  -- what is taken two at a time here are two steps of the pass
  | case2 c cs ih => rw [run, step]; simp [run_escaped, ih]
  | case3 cs ih => rw [run, step]; simp [run_escaped, ih]
  | case4 c cs hesc hbrace hc =>
      obtain rfl := beq_iff_eq.mp hc
      rfl
  | case5 c cs hesc hbrace hc ih =>
      have hescape : (c == '\\' && cs.head?.isSome) = false := by
        cases cs with
        | nil => simp
        | cons a as => simpa using fun h => hesc a as h rfl
      have hdollar : (c == '$' && cs.head? == some (ch '\x7b')) = false := by
        cases cs with
        | nil => simp
        | cons a as => simpa using fun h h' => hbrace as h (by rw [h'])
      rw [run, step]
      simp [hescape, hdollar, hc, ih]
  | case6 d c cs hc ih => rw [run, step]; simp [hc, ih]
  | case7 d c cs hc hc' ih => rw [run, step]; simp [hc, hc', ih]
  | case8 d c cs hc hc' ih => rw [run, step]; simp [hc, hc', ih]

end Pass

theorem templateEnd_succ (d : Nat) (t : Text) : templateEnd (d + 1) t =
    templateEnd 0 (t.drop (interpolationEnd (d + 1) t)) + interpolationEnd (d + 1) t := by
  induction t generalizing d with
  | nil => rfl
  | cons c cs ih =>
      rw [templateEnd, interpolationEnd, List.drop_succ_cons]
      split
      · rw [ih, Nat.add_assoc]
      · split
        -- a closing brace may be the last one, behind which the template goes on
        · cases d with
          | zero => simp [interpolationEnd]
          | succ d => rw [ih, Nat.add_assoc]
        · rw [ih, Nat.add_assoc]

theorem templateLoops_eq (t : Text) : templateLoops t = templateEnd 0 t := by
  fun_induction templateLoops t with
  | case1 => rfl
  | case2 c cs ih => rw [templateEnd, ih]
  | case3 cs ih => rw [templateEnd, ih, templateEnd_succ]
  | case4 c cs hesc hbrace hc => rw [templateEnd.eq_4 _ _ hesc hbrace, if_pos hc]
  | case5 c cs hesc hbrace hc ih => rw [templateEnd.eq_4 _ _ hesc hbrace, if_neg hc, ih]

theorem template_ends_in_one_pass {t : Text} {i : Nat} (hi : t[i]? = some (ch '\x60')) (triple : Bool) :
    let e := i + 1 + bodyLength triple '\x60' (t.drop (i + 1))
    e = i + 1 + ({} : Pass).run (t.drop (i + 1)) ∧ e = i + 1 + templateLoops (t.drop (i + 1)) ∧
      i < e ∧ e ≤ t.length := by
  intro e
  obtain ⟨hlt, -⟩ := List.getElem?_eq_some_iff.mp hi
  have he : e = i + 1 + templateEnd 0 (t.drop (i + 1)) := rfl
  have hle := templateEnd_le 0 (t.drop (i + 1))
  rw [List.length_drop] at hle
  refine ⟨?_, ?_, by omega, by omega⟩
  · rw [he, Pass.run_eq_templateEnd]
  · rw [he, templateLoops_eq]

theorem template_ends_in_one_pass_of_interpolation :
    let t := "x\x60\\$\x7b\x7d$\x7b\x7b\x7d\x60\\\x7d\x60y".toText
    t[1]? = some (ch '\x60') ∧ 2 + ({} : Pass).run (t.drop 2) = 14 ∧
      2 + bodyLength false '\x60' (t.drop 2) = 14 := by
  intro t
  have h := (template_ends_in_one_pass (t := t) (i := 1) rfl false).1
  have hrun : 2 + ({} : Pass).run (t.drop 2) = 14 := by decide
  exact ⟨rfl, hrun, h.trans hrun⟩

end CodeCompaction.Literal
