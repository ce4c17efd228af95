/-
  ShaderLoom.EnvFile.Reference — variables referred to inside a value.

  `${NAME}` stands for the value of a variable and `${NAME:-TEXT}` too, with a text to stand in
  for a variable that is not there. The stand-in ends at the first closing brace; a name has
  neither brace nor colon in it. What is not of one of these forms stands for itself, and what
  a reference brings in is not read again.
-/

import ShaderLoom.Value.Entries

namespace ShaderLoom.EnvFile

structure Reference where
  name : List Char
  standIn : List Char
  /-- The number of characters that write the reference. -/
  length : Nat
  deriving DecidableEq

namespace Reference

/-- A reference at the start of a text. -/
def first? : List Char → Option Reference
  | '$' :: '{' :: rest =>
    let name := rest.takeWhile fun c => c != '}' && c != ':'
    match rest.drop name.length with
    | '}' :: _ => some ⟨name, [], name.length + 3⟩
    | ':' :: '-' :: after =>
      let standIn := after.takeWhile (· != '}')
      if standIn.length < after.length then
        some ⟨name, standIn, name.length + standIn.length + 5⟩
      else none
    | _ => none
  | _ => none

def value (known : String → Option String) (r : Reference) : List Char :=
  match known (String.ofList r.name) with
  | some v => v.toList
  | none => r.standIn

/-- A text with its references replaced, its first `covered` characters left out. -/
def expandFrom (known : String → Option String) (covered : Nat) : List Char → List Char
  | [] => []
  | c :: rest =>
    match covered with
    | k + 1 => expandFrom known k rest
    | 0 =>
      match first? (c :: rest) with
      | some r => r.value known ++ expandFrom known (r.length - 1) rest
      | none => c :: expandFrom known 0 rest

def expand (known : String → Option String) (s : String) : String :=
  String.ofList (expandFrom known 0 s.toList)

end Reference

end ShaderLoom.EnvFile
