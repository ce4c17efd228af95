/-
  ShaderLoom.Settings — settings from environment variables.

  A settings file adds variables to the environment and never replaces one that is there, even
  an empty one; a variable of its own keeps the file from being read at all. Strictness is on unless
  switched off by one of four words; the generation log is off unless its path is more than blanks; an
  unknown log level is that of information.
-/

import ShaderLoom.EnvFile
import ShaderLoom.Fault

namespace ShaderLoom

abbrev Environment := Entries String

namespace Settings

def failFastKey : String := "VIBESHADERS_FAIL_FAST"
def generationLogKey : String := "VIBESHADERS_GENERATION_LOG"
def logLevelKey : String := "VIBESHADERS_LOG_LEVEL"

/-- The variable that switches settings files off. -/
def filesOffKey : String := "PYTHON_DOTENV_DISABLED"

/-- A letter without regard to its case; the long s counts as an s. -/
def folded (c : Char) : Char := if c.toNat = 0x17F then 's' else c.toLower

/-- The words that say yes, in lower case. -/
def yesWords : List String := ["1", "true", "t", "yes", "y"]

/-- Whether the environment switches settings files off: with a word that says yes, and no blank
around it. -/
def filesOff (env : Environment) : Bool :=
  match Entries.get? filesOffKey env with
  | none => false
  | some raw => yesWords.contains (String.ofList (raw.toList.map folded))

/-- The null character ends a variable, so neither a name nor a value can hold it, and the
equals sign ends a name. -/
def checkVariable (key value : String) : Except Fault Unit :=
  if Text.hasNull key || Text.hasNull value then .error .nullCharacter
  else if key.toList.contains '=' then .error .notAVariableName
  else .ok ()

/-- Adds a variable that the environment does not have yet. -/
def addVariable (env : Environment) (key value : String) : Except Fault Environment :=
  if Entries.has key env then .ok env
  else do
    checkVariable key value
    return Entries.put key value env

/-- Adds what a settings file sets, unless files are switched off; says whether a file was read
that names any variable. -/
def load (file : Option String) (env : Environment) : Except Fault (Bool × Environment) :=
  match file.filter fun _ => !filesOff env with
  | none => .ok (false, env)
  | some text => do
    let found := EnvFile.settings env text
    let env ← found.foldlM (fun env (key, value) =>
      match value with
      | some v => addVariable env key v
      | none => .ok env) env
    return (!found.isEmpty, env)

def trimmed (s : String) : List Char := Text.trim Text.isBlank s.toList

/-- The words that switch strictness off, in lower case. -/
def offWords : List String := ["0", "false", "no", "off"]

def strict (env : Environment) : Bool :=
  match Entries.get? failFastKey env with
  | none => true
  | some raw => !offWords.contains (String.ofList ((trimmed raw).map Char.toLower))

def generationLog (env : Environment) : Option String :=
  match (Entries.get? generationLogKey env).map trimmed with
  | some (c :: rest) => some (String.ofList (c :: rest))
  | _ => none

/-- The capital of a letter. Beyond ASCII only the dotless i and the long s have one in it. -/
def capital (c : Char) : Char :=
  if c.toNat = 0x131 then 'I' else if c.toNat = 0x17F then 'S' else c.toUpper

def levelOf? (name : String) : Option Nat :=
  match name with
  | "CRITICAL" | "FATAL" => some 50
  | "ERROR" => some 40
  | "WARNING" | "WARN" => some 30
  | "INFO" => some 20
  | "DEBUG" => some 10
  | "NOTSET" => some 0
  | _ => none

def logLevel (env : Environment) : Nat :=
  let raw := (Entries.get? logLevelKey env).getD "INFO"
  (levelOf? (String.ofList ((trimmed raw).map capital))).getD 20

end Settings

end ShaderLoom
