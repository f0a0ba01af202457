import CodeCompaction.Mode
import CodeCompaction.Path.Parts

namespace CodeCompaction.Batch

open CodeCompaction.Text

def logger : String := "compactor4ai.core.pipeline.batch"

def fraction (done total : Int) : Float := if total ≤ 0 then 1.0 else Number.quotient done total.toNat

def progressLine (name : Text) (done total : Int) : Text :=
  ch '[' :: Number.signed done ++ ch '/' :: Number.signed total ++ "] ".toText ++ name ++ " (".toText ++
    Number.percent (fraction done total) ++ ")\n".toText

structure Progress where
  name : Text
  done : Nat
  total : Nat
  bytes : Nat
  totalBytes : Nat
  saved : Int
  deriving Repr, DecidableEq

def Progress.line (p : Progress) : Text := progressLine p.name p.done p.total

structure Record where
  id : Text
  name : Text
  content : Text
  deriving Repr, DecidableEq

structure Processed where
  id : Text
  content : Text
  deriving Repr, DecidableEq

abbrev Transform := Nat → Record → Except Failure (Logged Text)

def byMode (limit : Json.NestingLimit) (m : Mode) : Transform :=
  fun _ r => .ok (m.run limit (Path.extensionOfName r.name) r.content)

abbrev Listener := Nat → Option Text

structure Outcome where
  result : Except Failure (List Processed)
  events : List Progress
  entries : List Log.Entry

structure Tally where
  done : Nat := 0
  bytes : Nat := 0
  saved : Int := 0
  deriving Repr, DecidableEq

def savedBytes (before after : Text) : Int := (byteLength before : Int) - byteLength after

def Tally.add (t : Tally) (before after : Text) : Tally :=
  { done := t.done + 1
    bytes := t.bytes + byteLength before
    saved := t.saved + savedBytes before after }

def totalBytes (rs : List Record) : Nat := rs.foldr (fun r n => byteLength r.content + n) 0

def startedMessage (m : Mode) (rs : List Record) : Text :=
  "Batch started: ".toText ++ Number.decimal rs.length ++ " file(s), ".toText ++
    Number.decimal (totalBytes rs) ++ " bytes, mode '".toText ++ m.tag.toText ++ "'.".toText

def processedMessage (r : Record) (after : Text) : Text :=
  "Processed ".toText ++ r.name ++ " [".toText ++ Path.extensionOfName r.name ++ "]: ".toText ++
    Number.explicitlySigned (savedBytes r.content after) ++ " bytes saved".toText

def finishedMessage (t : Tally) : Text :=
  "Batch finished: ".toText ++ Number.decimal t.done ++ " file(s), ".toText ++ Number.signed t.saved ++
    " bytes saved.".toText

def note (level : Log.Level) (message : Text) : Log.Entry := { level, logger, message }

def listenerEntries (listener? : Option Listener) (r : Record) (number : Nat) : List Log.Entry :=
  match listener?.bind (· number) with
  | none => []
  | some text => [note Log.warning ("Progress listener failed on ".toText ++ r.name ++ ": ".toText ++ text)]

structure Setup where
  transform : Transform
  listener? : Option Listener
  total : Nat
  totalBytes : Nat

def Setup.event (s : Setup) (r : Record) (t : Tally) : Progress :=
  { name := r.name, done := t.done, total := s.total
    bytes := t.bytes, totalBytes := s.totalBytes, saved := t.saved }

def Setup.run (s : Setup) : Tally → List Record → Outcome
  | t, [] => { result := .ok [], events := [], entries := [note Log.info (finishedMessage t)] }
  | t, r :: rs =>
      match s.transform (t.done + 1) r with
      | .error e => { result := .error e, events := [], entries := [] }
      | .ok out =>
          let t' := t.add r.content out.value
          let rest := s.run t' rs
          { result := rest.result.map ({ id := r.id, content := out.value } :: ·)
            events := (if s.listener?.isSome then [s.event r t'] else []) ++ rest.events
            entries := out.entries ++ note Log.debug (processedMessage r out.value) ::
              listenerEntries s.listener? r t'.done ++ rest.entries }

def process (m : Mode) (transform : Transform) (listener? : Option Listener) (rs : List Record) : Outcome :=
  let out := Setup.run { transform, listener?, total := rs.length, totalBytes := totalBytes rs } {} rs
  { out with entries := note Log.info (startedMessage m rs) :: out.entries }

inductive Form where
  | plain
  | background
  | blocking
  | refused (reason : Failure)

inductive RunError where
  | raised (e : Failure)
  | wrapped (cause : Failure)
  deriving Repr, DecidableEq

def RunError.kind : RunError → String
  | .raised e => e.kind
  | .wrapped _ => "BatchProcessingError"

def RunError.message : RunError → Text
  | .raised e => e.message
  | .wrapped e => "Processing failed: ".toText ++ e.message

def RunError.cause? : RunError → Option Failure
  | .raised _ => none
  | .wrapped e => some e

structure Answer where
  result : Except RunError (List Processed)
  events : List Progress
  entries : List Log.Entry

def awaited (out : Outcome) : Answer :=
  { result := out.result.mapError .wrapped
    events := out.events
    entries := out.entries ++ match out.result with
      | .ok _ => []
      | .error e => [note Log.error ("Batch processing failed: ".toText ++ e.message)] }

def passedOn (out : Outcome) : Answer :=
  { result := out.result.mapError .raised, events := out.events, entries := out.entries }

abbrev Job := Unit → Outcome

abbrev Worker := Job → Except Failure Outcome

def ownWorker : Worker := fun job => .ok (job ())

def refusing (reason : Failure) : Worker := fun _ => .error reason

def handedOver (worker? : Option Worker) (job : Job) : Outcome :=
  match worker?.getD ownWorker job with
  | .ok out => out
  | .error reason => { result := .error reason, events := [], entries := [] }

def inBackground (worker? : Option Worker) (job : Job) : Answer := passedOn (handedOver worker? job)

def blocking (worker? : Option Worker) (job : Job) : Answer := awaited (handedOver worker? job)

def answer (form : Form) (m : Mode) (transform : Transform) (listener? : Option Listener)
    (rs : List Record) : Answer :=
  let job : Job := fun _ => process m transform listener? rs
  match form with
  | .plain => passedOn (job ())
  | .background => inBackground none job
  | .blocking => blocking none job
  | .refused reason => blocking (some (refusing reason)) job

end CodeCompaction.Batch
