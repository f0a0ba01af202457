import CodeCompaction.Options.Table
import CodeCompaction.Number.Decimal
import CodeCompaction.Text.Printable

namespace CodeCompaction.Options

open CodeCompaction.Text

inductive Exit where
  | help
  | error (message : Text)
  deriving Repr, DecidableEq

def failure {α : Type} (message : Text) : Except Exit α := .error (.error message)

def fault {α : Type} (s : Spec) (message : Text) : Except Exit α :=
  failure ("argument ".toText ++ s.name.toText ++ ": ".toText ++ message)

def ignored {α : Type} (s : Spec) (value : Text) : Except Exit α :=
  fault s ("ignored explicit argument ".toText ++ quoted value)

def expectedOne {α : Type} (s : Spec) : Except Exit α := fault s "expected one argument".toText

structure Occurrence where
  spec : Spec
  flag : Text
  explicit? : Option Text
  deriving Repr, DecidableEq

inductive Kind where
  | argument
  | separator
  | option (o : Occurrence)
  | unknown
  deriving Repr, DecidableEq

structure Word where
  text : Text
  kind : Kind
  deriving Repr, DecidableEq

def Word.isOption (w : Word) : Bool :=
  match w.kind with
  | .option _ => true
  | .unknown => true
  | _ => false

def atEquals (t : Text) : Text × Option Text :=
  let before := t.takeWhile (· != ch '=')
  (before, if before.length < t.length then some (t.drop (before.length + 1)) else none)

def longMatches (t : Text) : List Occurrence :=
  let (front, explicit?) := atEquals t
  (flagTable.filter (fun (f, _) => front.isPrefixOf f)).map
    fun (flag, spec) => { spec, flag, explicit? }

def shortMatches (t : Text) : List Occurrence :=
  flagTable.filterMap fun (flag, spec) =>
    if flag == t.take 2 then some { spec, flag, explicit? := some (t.drop 2) }
    else if t.isPrefixOf flag then some { spec, flag, explicit? := none }
    else none

def isLong (t : Text) : Bool := [ch '-', '-'].isPrefixOf t

def candidates (t : Text) : List Occurrence := if isLong t then longMatches t else shortMatches t

def withoutBreak (t : Text) : Text := if t.getLast? == some (ch '\n') then t.dropLast else t

def allDigits (t : Text) : Bool := !t.isEmpty && t.all isDecimalDigit

def isNegativeNumber (t : Text) : Bool :=
  match withoutBreak t with
  | '-' :: ds =>
      allDigits ds ||
        (let whole := ds.takeWhile (· != ch '.')
         whole.all isDecimalDigit && whole.length < ds.length && allDigits (ds.drop (whole.length + 1)))
  | _ => false

def ambiguous {α : Type} (t : Text) (os : List Occurrence) : Except Exit α :=
  failure ("ambiguous option: ".toText ++ t ++ " could match ".toText ++
    List.intercalate ", ".toText (os.map Occurrence.flag))

def exactOption? (t : Text) : Option Occurrence :=
  match flagTable.lookup t with
  | some spec => some { spec, flag := t, explicit? := none }
  | none =>
      let (front, explicit?) := atEquals t
      if explicit?.isSome then
        (flagTable.lookup front).map fun spec => { spec, flag := front, explicit? }
      else none

def kindOf (t : Text) : Except Exit Kind :=
  if t.head? != some (ch '-') then .ok .argument
  else match exactOption? t with
    | some o => .ok (.option o)
    | none =>
        if t.length == 1 then .ok .argument
        else match candidates t with
          | [o] => .ok (.option o)
          | [] => .ok (if isNegativeNumber t || t.contains ' ' then .argument else .unknown)
          | os => ambiguous t os

def classify : List Text → Except Exit (List Word)
  | [] => .ok []
  | t :: ts =>
      if t == [ch '-', '-'] then
        .ok ({ text := t, kind := .separator } :: ts.map (fun a => { text := a, kind := .argument }))
      else do
        let kind ← kindOf t
        let rest ← classify ts
        .ok ({ text := t, kind } :: rest)

inductive Given where
  | flag
  | absent
  | text (t : Text)
  deriving Repr, DecidableEq

structure Assignment where
  key : Key
  given : Given
  deriving Repr, DecidableEq

def givenText (t : Text) : Given := if t == [ch '-', '-'] then .absent else .text t

def cluster (s : Spec) (flag : Text) : Option Text → Except Exit (List Assignment × Option Spec)
  | none =>
      match s.arity with
      | .none => .ok ([{ key := s.key, given := .flag }], none)
      | _ => .ok ([], some s)
  | some [] =>
      match s.arity with
      | .none => ignored s []
      | _ => .ok ([{ key := s.key, given := givenText [] }], none)
  | some (c :: cs) =>
      match s.arity with
      | .none =>
          if isLong flag then ignored s (c :: cs)
          else match flagTable.lookup [ch '-', c] with
            | none => ignored s (c :: cs)
            | some next => do
                let (as, open?) ← cluster next ['-', c] (if cs.isEmpty then none else some cs)
                .ok ({ key := s.key, given := .flag } :: as, open?)
      | _ => .ok ([{ key := s.key, given := givenText (c :: cs) }], none)
termination_by e => (e.map List.length).getD 0
decreasing_by
  simp_wf
  split <;> simp

def nextArgument (s : Spec) (ws : List Word) : Except Exit (Assignment × List Word) :=
  match ws with
  | { text := t, kind := .argument } :: rest => .ok ({ key := s.key, given := .text t }, rest)
  | _ =>
      if s.arity = .optional then .ok ({ key := s.key, given := .absent }, ws) else expectedOne s

theorem nextArgument_length {s : Spec} {ws : List Word} {a : Assignment} {rest : List Word}
    (h : nextArgument s ws = .ok (a, rest)) : rest.length ≤ ws.length := by
  unfold nextArgument at h
  split at h
  · injection h with h
    injection h with _ h
    subst h
    simp
  · split at h
    · injection h with h
      injection h with _ h
      subst h
      exact Nat.le_refl _
    · simp [expectedOne, fault, failure] at h

structure Parsed where
  assignments : List Assignment := []
  paths : List Text := []
  leftOver : List Text := []
  deriving Repr, DecidableEq

def Parsed.assign (as : List Assignment) (p : Parsed) : Parsed :=
  { p with assignments := as ++ p.assignments }

def asksForHelp (as : List Assignment) : Bool := as.any (·.key == .help)

def pathsOf (ws : List Word) : List Text := (ws.map Word.text).erase ['-', '-']

def consume (pathsToCome : Bool) : List Word → Except Exit Parsed
  | [] => .ok {}
  | w :: ws =>
      match w.kind with
      | .unknown => do
          let p ← consume pathsToCome ws
          .ok { p with leftOver := w.text :: p.leftOver }
      | .option o => do
          let (as, open?) ← cluster o.spec o.flag o.explicit?
          match open? with
          | none =>
              if asksForHelp as then .error .help
              else do
                let p ← consume pathsToCome ws
                .ok (p.assign as)
          | some s =>
              match _h : nextArgument s ws with
              | .error e => .error e
              | .ok (a, rest) =>
                  if asksForHelp as then .error .help
                  else do
                    let p ← consume pathsToCome rest
                    .ok (p.assign (as ++ [a]))
      | _ => do
          let piece := ws.takeWhile (!·.isOption)
          let p ← consume false (ws.drop piece.length)
          if pathsToCome then .ok { p with paths := pathsOf (w :: piece) }
          else .ok { p with leftOver := (w :: piece).map Word.text ++ p.leftOver }
termination_by ws => ws.length
decreasing_by
  · exact Nat.lt_succ_self _
  · exact Nat.lt_succ_self _
  · exact Nat.lt_succ_of_le (nextArgument_length _h)
  · exact Nat.lt_succ_of_le (by simp)

def unrecognized {α : Type} (ts : List Text) : Except Exit α :=
  failure ("unrecognized arguments: ".toText ++ unwords ts)

def parse (argv : List Text) : Except Exit Parsed := do
  let p ← consume true (← classify argv)
  if p.leftOver.isEmpty then .ok p else unrecognized p.leftOver

end CodeCompaction.Options
