import CodeCompaction.Config.Basic
import CodeCompaction.Number.Notation

namespace CodeCompaction.Config

open CodeCompaction.Json CodeCompaction.Text

structure Checked (α : Type) where
  value : α
  warnings : List Text := []
  deriving Repr

namespace Checked

instance : Monad Checked where
  pure a := { value := a }
  bind x f :=
    let y := f x.value
    { value := y.value, warnings := x.warnings ++ y.warnings }

@[simp] theorem value_pure {α : Type} (a : α) : (pure a : Checked α).value = a := rfl

@[simp] theorem value_bind {α β : Type} (x : Checked α) (f : α → Checked β) :
    (x >>= f).value = (f x.value).value := rfl

def warn (message : Text) : Checked Unit := { value := (), warnings := [message] }

end Checked

def kindName : Value → Text
  | .null => "NoneType".toText
  | .bool _ => "bool".toText
  | .int _ => "int".toText
  | .real _ => "float".toText
  | .str _ => "str".toText
  | .arr _ => "list".toText
  | .obj _ => "dict".toText

def unfit (field expected : Text) (v : Value) : Text :=
  "Invalid field '".toText ++ field ++ "': expected ".toText ++ expected ++ ", received ".toText ++
    kindName v ++ ". Using fallback.".toText

def textField (field : Text) (fallback : Text) : Value → Checked Text
  | .null => pure fallback
  | .str t => pure (strip t)
  | v => do
      Checked.warn (unfit field "str".toText v)
      pure fallback

def truthOfNumber? : Value → Option Bool
  | .int i => if i == 0 then some false else if i == 1 then some true else none
  | .real x => if x == 0 then some false else if x == 1 then some true else none
  | _ => none

def numberText : Value → Text
  | .int i => Number.signed i
  | .real x => Number.shortestText Number.shortNames x
  | _ => []

def yesWords : List String := ["true", "1", "yes", "y"]

def noWords : List String := ["false", "0", "no", "n"]

def truthOfWord? (t : Text) : Option Bool :=
  let s := lower (strip t)
  if yesWords.any (·.toText == s) then some true
  else if noWords.any (·.toText == s) then some false
  else none

def truthName (b : Bool) : Text := if b then "True".toText else "False".toText

def convertedNumber (field : Text) (v : Value) : Text :=
  "Field '".toText ++ field ++ "' converted from number ".toText ++ numberText v ++ " to bool.".toText

def convertedWord (field t : Text) (b : Bool) : Text :=
  "Field '".toText ++ field ++ "' converted from '".toText ++ t ++ "' to ".toText ++ truthName b ++
    ".".toText

def boolField (field : Text) (fallback : Bool) : Value → Checked Bool
  | .bool b => pure b
  | .null => pure fallback
  | .str t =>
      match truthOfWord? t with
      | some b => do
          Checked.warn (convertedWord field t b)
          pure b
      | none => do
          Checked.warn (unfit field "bool".toText (.str t))
          pure fallback
  | v =>
      match truthOfNumber? v with
      | some b => do
          Checked.warn (convertedNumber field v)
          pure b
      | none => do
          Checked.warn (unfit field "bool".toText v)
          pure fallback

def modeField (v : Value) : Checked Mode := do
  let t := lower (← textField modeName defaults.mode.tag.toText v)
  match Mode.ofExactTag? t with
  | some m => pure m
  | none => do
      Checked.warn ("Unknown processing mode '".toText ++ t ++ "'. Falling back to '".toText ++
        Mode.raw.tag.toText ++ "'.".toText)
      pure .raw

def levelField (v : Value) : Checked Log.LevelName := do
  let t := upper (← textField logLevelName defaults.logLevel.name.toText v)
  match Log.LevelName.ofExactText? t with
  | some n => pure n
  | none => do
      Checked.warn ("Unknown log level '".toText ++ t ++ "'. Using '".toText ++
        defaults.logLevel.name.toText ++ "'.".toText)
      pure defaults.logLevel

def value (d : Draft) (name : Text) : Value := (d.lookup name).getD .null

def checkDraft (d : Draft) : Checked Settings := do
  let d := overDefaults d
  let outputDir ← textField outputDirName defaults.outputDir (value d outputDirName)
  let outputSuffix ← textField outputSuffixName defaults.outputSuffix (value d outputSuffixName)
  let logFile ← textField logFileName defaults.logFile (value d logFileName)
  let countTokens ← boolField countTokensName defaults.countTokens (value d countTokensName)
  let mode ← modeField (value d modeName)
  let logLevel ← levelField (value d logLevelName)
  pure { mode, countTokens, outputDir, outputSuffix, logLevel, logFile }

def check (v : Value) : Checked Settings :=
  match v with
  | .obj d => checkDraft d
  | _ => do
      Checked.warn
        ("Invalid config type: expected dict, received ".toText ++ kindName v ++ ". Using defaults.".toText)
      pure defaults

end CodeCompaction.Config
