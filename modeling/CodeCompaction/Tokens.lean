import CodeCompaction.Log.Entry
import CodeCompaction.Text.Basic

namespace CodeCompaction.Tokens

def logger : String := "compactor4ai.core.processing.tokenizer"

structure Vocabulary where
  name : Text
  count : Text → Nat

inductive LoadFailure where
  | unavailable (reason : Text)
  | raised (e : Failure)
  deriving Repr, DecidableEq

abbrev Source := Text → Except LoadFailure Vocabulary

inductive TokenError where
  | noVocabulary (failures : List (Text × Text))
  | raised (e : Failure)
  deriving Repr, DecidableEq

def TokenError.failure : TokenError → Failure
  | .raised e => e
  | .noVocabulary fs =>
      { kind := "TokenizerError"
        message := "failed to load tokenizer: ".toText ++
          List.intercalate "; ".toText (fs.map fun (n, reason) => n ++ ": ".toText ++ reason) }

structure Load where
  requested : List Text
  entries : List Log.Entry
  result : Except TokenError Vocabulary

def note (message : Text) : Log.Entry := { level := Log.debug, logger, message }

def loadFrom (source : Source) : List (Text × Text) → List Text → Load
  | failures, [] => { requested := [], entries := [], result := .error (.noVocabulary failures) }
  | failures, n :: ns =>
      match source n with
      | .ok v =>
          { requested := [n]
            entries := [note ("Loaded BPE vocabulary '".toText ++ n ++ "'.".toText)]
            result := .ok v }
      | .error (.raised e) => { requested := [n], entries := [], result := .error (.raised e) }
      | .error (.unavailable reason) =>
          let rest := loadFrom source (failures ++ [(n, reason)]) ns
          { requested := n :: rest.requested
            entries := note ("Encoding '".toText ++ n ++ "' unavailable: ".toText ++ reason) :: rest.entries
            result := rest.result }

structure Service where
  preferences : List Text
  loaded? : Option Vocabulary := none

def preferredNames : List Text := ["o200k_base".toText, "cl100k_base".toText]

structure Reply (α : Type) where
  service : Service
  requested : List Text
  entries : List Log.Entry
  result : Except TokenError α

def Service.ask {α : Type} (s : Service) (source : Source) (f : Vocabulary → α) : Reply α :=
  match s.loaded? with
  | some v => { service := s, requested := [], entries := [], result := .ok (f v) }
  | none =>
      let load := loadFrom source [] s.preferences
      { service := { s with loaded? := load.result.toOption }
        requested := load.requested
        entries := load.entries
        result := load.result.map f }

def Service.count (s : Service) (source : Source) (t : Text) : Reply Nat :=
  if t.isEmpty then { service := s, requested := [], entries := [], result := .ok 0 }
  else s.ask source (·.count t)

def Service.countOptional (s : Service) (source : Source) (t : Option Text) : Reply Nat :=
  s.count source (t.getD [])

def Service.name (s : Service) (source : Source) : Reply Text := s.ask source Vocabulary.name

def Service.total (s : Service) (source : Source) : List Text → Reply Nat
  | [] => { service := s, requested := [], entries := [], result := .ok 0 }
  | t :: ts =>
      let first := s.count source t
      match first.result with
      | .error e => { first with result := .error e }
      | .ok n =>
          let rest := first.service.total source ts
          { service := rest.service
            requested := first.requested ++ rest.requested
            entries := first.entries ++ rest.entries
            result := rest.result.map (n + ·) }

end CodeCompaction.Tokens
