import CodeCompaction.Path.Parts
import CodeCompaction.Text.Encoding

namespace CodeCompaction.FileTree

abbrev Place := List Text

instance decidableEqBytes : DecidableEq ByteArray := fun a b =>
  if h : a.data = b.data then isTrue (ByteArray.ext h) else isFalse (fun e => h (congrArg ByteArray.data e))

inductive Node where
  | dir
  | file (bytes : ByteArray)
  | link (target : Text)
  deriving DecidableEq

def Node.isLink : Node → Bool
  | .link _ => true
  | _ => false

structure Tree where
  entries : List (Place × Node) := []

namespace Tree

def node? (t : Tree) (p : Place) : Option Node := if p.isEmpty then some .dir else t.entries.lookup p

def setEntry (p : Place) (n : Node) : List (Place × Node) → List (Place × Node)
  | [] => [(p, n)]
  | e :: es => if e.1 == p then (p, n) :: es else e :: setEntry p n es

theorem lookup_setEntry_self (p : Place) (n : Node) (es : List (Place × Node)) :
    (setEntry p n es).lookup p = some n := by
  induction es with
  | nil => simp [setEntry]
  | cons e es ih =>
      obtain ⟨q, m⟩ := e
      simp only [setEntry]
      split
      · simp
      · rename_i h
        have hq : (p == q) = false := by
          simp only [beq_iff_eq] at h
          simpa using fun e => h e.symm
        simp [List.lookup_cons, hq, ih]

theorem lookup_setEntry_of_ne {p q : Place} (n : Node) (es : List (Place × Node)) (h : q ≠ p) :
    (setEntry p n es).lookup q = es.lookup q := by
  induction es with
  | nil =>
      have hq : (q == p) = false := by simpa using h
      simp [setEntry, List.lookup_cons, hq]
  | cons e es ih =>
      obtain ⟨r, m⟩ := e
      simp only [setEntry]
      split
      · rename_i he
        have hr : r = p := by simpa using he
        subst hr
        have hq : (q == r) = false := by simpa using h
        simp [List.lookup_cons, hq]
      · simp only [List.lookup_cons]
        split
        · rfl
        · exact ih

def set (t : Tree) (p : Place) (n : Node) : Tree := { entries := setEntry p n t.entries }

def erase (t : Tree) (p : Place) : Tree := { entries := t.entries.filter (fun e => e.1 != p) }

theorem node?_set_self {t : Tree} {p : Place} {n : Node} (h : p ≠ []) :
    (t.set p n).node? p = some n := by
  simp [node?, set, h, lookup_setEntry_self]

theorem node?_set_of_ne {t : Tree} {p q : Place} {n : Node} (h : q ≠ p) :
    (t.set p n).node? q = t.node? q := by
  simp [node?, set, lookup_setEntry_of_ne n t.entries h]

def children (t : Tree) (p : Place) : List Text :=
  t.entries.filterMap fun e =>
    if e.1.length == p.length + 1 && p.isPrefixOf e.1 then e.1.getLast? else none

end Tree

inductive Fault where
  | noEntry
  | exists
  | notDirectory
  | isDirectory
  | nameTooLong
  | tooManyLinks
  /-- The system is not asked at all. -/
  | illegal (e : Failure)
  deriving Repr, DecidableEq

def Fault.raised? : Fault → Option Failure
  | .illegal e => some e
  | _ => none

def Fault.number : Fault → Nat
  | .noEntry => 2
  | .exists => 17
  | .notDirectory => 20
  | .isDirectory => 21
  | .illegal _ => 22
  | .nameTooLong => 36
  | .tooManyLinks => 40

def Fault.text : Fault → Text
  | .noEntry => "No such file or directory".toText
  | .exists => "File exists".toText
  | .notDirectory => "Not a directory".toText
  | .isDirectory => "Is a directory".toText
  | .illegal e => e.message
  | .nameTooLong => "File name too long".toText
  | .tooManyLinks => "Too many levels of symbolic links".toText

def Fault.message (f : Fault) (path : Text) : Text :=
  "[Errno ".toText ++ Number.decimal f.number ++ "] ".toText ++ f.text ++ ": ".toText ++ Text.quoted path

end CodeCompaction.FileTree
