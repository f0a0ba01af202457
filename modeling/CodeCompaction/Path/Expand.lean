import CodeCompaction.Path.Parts
import CodeCompaction.Text.Rewrite

namespace CodeCompaction.Path

open CodeCompaction.Text

structure Environment where
  bindings : List (Text × Text) := []
  /-- The home directory of a user by name; the empty name is that of the user who runs the program. -/
  homeOf : Text → Option Text := fun _ => none

def homeVariable : Text := "HOME".toText

def Environment.home? (env : Environment) (user : Text) : Option Text :=
  if user.isEmpty then (env.bindings.lookup homeVariable).or (env.homeOf []) else env.homeOf user

def expandHome (env : Environment) (p : Text) : Text :=
  match p with
  | '~' :: rest =>
      let user := rest.takeWhile (!isSlash ·)
      match env.home? user with
      | some home =>
          let t := (home.reverse.dropWhile isSlash).reverse ++ rest.drop user.length
          if t.isEmpty then ['/'] else t
      | none => p
  | _ => p

def isNameChar : CodePoint → Bool
  | ch c => c.isAlphanum || c == '_'
  | .lone _ => false

def variableName (t : Text) : Option (Text × Nat) :=
  match t with
  | '\x7b' :: cs =>
      let name := cs.takeWhile (· != ch '\x7d')
      if name.length < cs.length then some (name, name.length + 2) else none
  | _ =>
      let name := t.takeWhile isNameChar
      if name.isEmpty then none else some (name, name.length)

def variableValues (env : Environment) : Substitution := fun _ t =>
  match t with
  | '$' :: cs => do
      let (name, n) ← variableName cs
      some (n + 1, (env.bindings.lookup name).getD (t.take (n + 1)))
  | _ => none

def expandVariables (env : Environment) (p : Text) : Text := rewrite (variableValues env) p

def ofUser (env : Environment) (current : Text) (written fallback : Text) : Text :=
  let t := strip written
  absolute current (expandVariables env (expandHome env (if t.isEmpty then fallback else t)))

def isAnySlash (c : CodePoint) : Bool := c == '/' || c == '\\'

def output (current dir name marker : Text) : Text :=
  let relative := name.dropWhile isAnySlash
  let (stem, ext) := splitExtension relative
  absolute current (join dir (if marker.isEmpty then relative else stem ++ marker ++ ext))

end CodeCompaction.Path
