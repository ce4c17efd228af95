/-
  ShaderLoom.EnvFile — settings files.

  A line sets a variable: `KEY=VALUE`, with `export` before it if one likes and blanks around
  the equals sign. A value stands in single or double quotes, where a backslash escapes, or
  bare up to the end of its line or a blank before a `#`. A line that is not of this form is
  passed over, and so is a comment; a byte order mark may stand before the first line. A value
  may refer to variables of the environment and to those that lines before it set.
-/

import ShaderLoom.EnvFile.Reference
import ShaderLoom.Text.Blank
import ShaderLoom.Text.Lines

namespace ShaderLoom.EnvFile

/-- A blank within a line. -/
def isGap (c : Char) : Bool := Text.isBlank c && c != '\n'

def skipGap (cs : List Char) : List Char := cs.dropWhile isGap

def isKeyChar (c : Char) : Bool := !(c == '=' || c == '#' || Text.isBlank c)

/-- Drops the word `export` when a gap follows it. -/
def dropExport : List Char → List Char
  | 'e' :: 'x' :: 'p' :: 'o' :: 'r' :: 't' :: c :: rest =>
    if isGap c then skipGap rest else 'e' :: 'x' :: 'p' :: 'o' :: 'r' :: 't' :: c :: rest
  | cs => cs

/-- The characters before a closing quote, and what follows it. A backslash and the character
after it belong together, so a quote behind a backslash does not close. -/
def upToQuote (quote : Char) : List Char → Option (List Char × List Char)
  | [] => none
  | '\\' :: c :: rest => (upToQuote quote rest).map fun (a, b) => ('\\' :: c :: a, b)
  | c :: rest =>
    if c = quote then some ([], rest) else (upToQuote quote rest).map fun (a, b) => (c :: a, b)

/-- What a character stands for after a backslash. -/
def escape? (quote c : Char) : Option Char :=
  if c = '\\' ∨ c = '\'' then some c
  else if quote = '\'' then none
  else match c with
    | '"' => some '"'
    | 'a' => some (Char.ofNat 7)
    | 'b' => some (Char.ofNat 8)
    | 'f' => some (Char.ofNat 12)
    | 'n' => some '\n'
    | 'r' => some '\r'
    | 't' => some '\t'
    | 'v' => some (Char.ofNat 11)
    | _ => none

def unescape (quote : Char) : List Char → List Char
  | '\\' :: c :: rest =>
    match escape? quote c with
    | some x => x :: unescape quote rest
    | none => '\\' :: unescape quote (c :: rest)
  | c :: rest => c :: unescape quote rest
  | [] => []

/-- A bare value without the comment that a blank and a `#` start. -/
def dropComment : List Char → List Char
  | [] => []
  | c :: rest =>
    if Text.isBlank c ∧ (rest.dropWhile Text.isBlank).head? = some '#' then []
    else c :: dropComment rest

/-- The value after an equals sign, and the rest of its line. -/
def value? (cs : List Char) : Option (List Char × List Char) :=
  match skipGap cs with
  | '\'' :: rest => (upToQuote '\'' rest).map fun (a, b) => (unescape '\'' a, b)
  | '"' :: rest => (upToQuote '"' rest).map fun (a, b) => (unescape '"' a, b)
  | _ =>
    let bare := cs.takeWhile (· != '\n')
    some (Text.trim Text.isBlank (dropComment bare), cs.drop bare.length)

def key? : List Char → Option (List Char × List Char)
  | '\'' :: rest =>
    match rest.takeWhile (· != '\''), rest.dropWhile (· != '\'') with
    | c :: key, _ :: after => some (c :: key, after)
    | _, _ => none
  | cs =>
    match cs.takeWhile isKeyChar with
    | [] => none
    | key => some (key, cs.drop key.length)

/-- Whether only a comment is left of a line. -/
def lineDone (cs : List Char) : Bool :=
  match skipGap cs with
  | [] => true
  | c :: _ => c == '\n' || c == '#'

def afterLine (cs : List Char) : List Char := (cs.dropWhile (· != '\n')).drop 1

/-- One line from its first character on: what it sets, and the text after it. A key without an
equals sign is named but not set. -/
def line (cs : List Char) : Option (String × Option String) × List Char :=
  match key? (dropExport cs) with
  | none => (none, afterLine cs)
  | some (key, rest) =>
    let name := String.ofList key
    match skipGap rest with
    | '=' :: rest =>
      match value? rest with
      | some (value, rest) =>
        if lineDone rest then (some (name, some (String.ofList value)), afterLine rest)
        else (none, afterLine rest)
      | none => (none, afterLine rest)
    | rest => if lineDone rest then (some (name, none), afterLine rest) else (none, afterLine rest)

/-- What the lines of a text set, one after another, `limit` lines at most. -/
def linesWithin : Nat → List Char → List (String × Option String)
  | 0, _ => []
  | limit + 1, cs =>
    match cs.dropWhile Text.isBlank with
    | [] => []
    | start =>
      let (setting, rest) := line start
      setting.toList ++ linesWithin limit rest

def dropMark (cs : List Char) : List Char :=
  match cs with
  | [] => []
  | c :: rest => if c.toNat = 0xFEFF then rest else c :: rest

/-- What the lines of a settings file set, references unread. -/
def lines (text : String) : List (String × Option String) :=
  linesWithin (text.length + 1) (Text.unifyLineEnds (dropMark text.toList))

/-- A variable of the environment, or else of the lines read so far; a key that has been named
but not set is empty. -/
def valueOf? (env : Entries String) (found : Entries (Option String)) (name : String) :
    Option String :=
  match Entries.get? name env with
  | some v => some v
  | none => (Entries.get? name found).map (·.getD "")

/-- What a settings file sets in an environment, a later line for a key winning. -/
def settings (env : Entries String) (text : String) : Entries (Option String) :=
  (lines text).foldl (fun found (key, value) =>
    Entries.put key (value.map (Reference.expand (valueOf? env found))) found) []

end ShaderLoom.EnvFile
