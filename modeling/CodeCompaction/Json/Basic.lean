import CodeCompaction.Text.Basic
import Std.Data.HashSet

namespace CodeCompaction.Json

inductive Value where
  | null
  | bool (b : Bool)
  | int (i : Int)
  | real (x : Float)
  | str (t : Text)
  | arr (items : List Value)
  | obj (members : List (Text × Value))

namespace Value

def field? (name : Text) : Value → Option Value
  | .obj ms => ms.lookup name
  | _ => none

def text? : Value → Option Text
  | .str t => some t
  | _ => none

def ofString (s : String) : Value := .str s.toText

def ofOption {α : Type} (f : α → Value) : Option α → Value
  | none => .null
  | some a => f a

end Value

def setMember {α : Type} (name : Text) (v : α) : List (Text × α) → List (Text × α)
  | [] => [(name, v)]
  | (n, w) :: ms => if n == name then (n, v) :: ms else (n, w) :: setMember name v ms

theorem setMember_of_not_mem {α : Type} {name : Text} {v : α} {ms : List (Text × α)}
    (h : name ∉ ms.map Prod.fst) : setMember name v ms = ms ++ [(name, v)] := by
  induction ms with
  | nil => rfl
  | cons m ms ih =>
      obtain ⟨n, w⟩ := m
      simp only [List.map_cons, List.mem_cons, not_or] at h
      have hn : (n == name) = false := by simpa using fun e => h.1 e.symm
      simp [setMember, hn, ih h.2]

def setMembers {α : Type} (ms new : List (Text × α)) : List (Text × α) :=
  new.foldl (fun ms m => setMember m.1 m.2 ms) ms

theorem setMembers_of_nodup {α : Type} {ms new : List (Text × α)}
    (h : ((ms ++ new).map Prod.fst).Nodup) : setMembers ms new = ms ++ new := by
  induction new generalizing ms with
  | nil => simp [setMembers]
  | cons m new ih =>
      have hm : m.1 ∉ ms.map Prod.fst := by
        intro hin
        simp only [List.map_append, List.map_cons, List.nodup_append] at h
        exact h.2.2 _ hin _ (by simp) rfl
      have step : setMembers ms (m :: new) = setMembers (ms ++ [m]) new := by
        simp only [setMembers, List.foldl_cons]
        rw [setMember_of_not_mem hm]
      rw [step, ih (by simpa using h)]
      simp

def hasRepeats (names : List Text) : Bool :=
  (Std.HashSet.ofList names).size < names.length

def settled {α : Type} (ms : List (Text × α)) : List (Text × α) :=
  if hasRepeats (ms.map Prod.fst) then setMembers [] ms else ms

theorem settled_of_nodup {α : Type} {ms : List (Text × α)} (h : (ms.map Prod.fst).Nodup) :
    settled ms = ms := by
  simp only [settled]
  split
  · have := @setMembers_of_nodup α [] ms (by simpa using h)
    simpa using this
  · rfl

end CodeCompaction.Json
