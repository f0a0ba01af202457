import CodeCompaction.Text.Case
import CodeCompaction.Text.Encoding
import CodeCompaction.Text.Rewrite

namespace CodeCompaction.Log

abbrev Level := Nat

def debug : Level := 10

def info : Level := 20

def warning : Level := 30

def error : Level := 40

def critical : Level := 50

def levelName (l : Level) : Text :=
  if l == debug then "DEBUG".toText
  else if l == info then "INFO".toText
  else if l == warning then "WARNING".toText
  else if l == error then "ERROR".toText
  else if l == critical then "CRITICAL".toText
  else if l == 0 then "NOTSET".toText
  else "Level ".toText ++ Number.decimal l

inductive LevelName where
  | debug
  | info
  | warning
  | warn
  | error
  | critical
  deriving Repr, DecidableEq

namespace LevelName

def all : List LevelName := [.debug, .info, .warning, .warn, .error, .critical]

def name : LevelName → String
  | .debug => "DEBUG"
  | .info => "INFO"
  | .warning => "WARNING"
  | .warn => "WARN"
  | .error => "ERROR"
  | .critical => "CRITICAL"

def level : LevelName → Level
  | .debug => Log.debug
  | .info => Log.info
  | .warning => Log.warning
  | .warn => Log.warning
  | .error => Log.error
  | .critical => Log.critical

def ofExactText? (t : Text) : Option LevelName := all.find? (fun n => n.name.toText == t)

end LevelName

def levelOf (t : Text) : Level :=
  ((LevelName.ofExactText? (Text.upper (Text.strip t))).map LevelName.level).getD info

structure Entry where
  level : Level
  logger : String
  message : Text
  deriving Repr, DecidableEq

def consoleTemplate : Text := "%(levelname)s | %(message)s".toText

def fileTemplate : Text := "%(asctime)s | %(levelname)s | %(name)s | %(message)s".toText

def fields (time : Text) (e : Entry) : List (Text × Text) := [
  ("%(asctime)s".toText, time),
  ("%(levelname)s".toText, levelName e.level),
  ("%(name)s".toText, e.logger.toText),
  ("%(message)s".toText, e.message)]

def filling (fs : List (Text × Text)) : Text.Substitution := fun _ t =>
  (fs.find? (fun f => f.1.isPrefixOf t)).map (fun f => (f.1.length, f.2))

def format (template time : Text) (e : Entry) : Text := Text.rewrite (filling (fields time e)) template

end CodeCompaction.Log

namespace CodeCompaction

structure Logged (α : Type) where
  value : α
  entries : List Log.Entry := []
  deriving Repr

namespace Logged

instance : Monad Logged where
  pure a := { value := a }
  bind x f :=
    let y := f x.value
    { value := y.value, entries := x.entries ++ y.entries }

@[simp] theorem value_pure {α : Type} (a : α) : (pure a : Logged α).value = a := rfl

@[simp] theorem entries_pure {α : Type} (a : α) : (pure a : Logged α).entries = [] := rfl

@[simp] theorem value_bind {α β : Type} (x : Logged α) (f : α → Logged β) :
    (x >>= f).value = (f x.value).value := rfl

@[simp] theorem entries_bind {α β : Type} (x : Logged α) (f : α → Logged β) :
    (x >>= f).entries = x.entries ++ (f x.value).entries := rfl

def write (level : Log.Level) (logger : String) (message : Text) : Logged Unit :=
  { value := (), entries := [{ level, logger, message }] }

end Logged
end CodeCompaction
