/-
  ShaderLoom.Schema.Check — holding a value to a schema.

  `problems` lists what a schema finds in a value, depth first and in the order of its rules:
  every rule reports for itself, and a part's problems carry the way to the part. A problem whose
  words would show a value that cannot be written out is listed without words.
-/

import ShaderLoom.Schema.Basic
import ShaderLoom.Schema.Problem

namespace ShaderLoom.Schema

def kindProblem (kinds : List ValueKind) (v : Value) : List Problem :=
  if kinds.any (·.admits v) then []
  else
    let names := ", ".intercalate (kinds.map fun k => Text.quoted k.name)
    [⟨v.inspect?.map (· ++ " is not of type " ++ names), []⟩]

def tagProblem (tags : List String) (v : Value) : List Problem :=
  let found := match v with
    | .str s => tags.contains s
    | _ => false
  if found then [] else [⟨v.inspect?.map (· ++ " is not one of " ++ (texts tags).inspect), []⟩]

def missingProblems (keys : List String) (entries : Entries Value) : List Problem :=
  (keys.filter fun key => !Entries.has key entries).map fun key =>
    ⟨some (Text.quoted key ++ " is a required property"), []⟩

/-- Keys that no `fields` rule lists. -/
def undeclared (declared : List String) (entries : Entries Value) : Entries Value :=
  entries.filter fun (key, _) => !declared.contains key

def closedProblem (extra : List String) : List Problem :=
  if extra.isEmpty then []
  else
    let names := (extra.mergeSort fun a b => decide (a ≤ b)).map Text.quoted
    let verb := if extra.length = 1 then "was" else "were"
    [⟨some ("Additional properties are not allowed (" ++ ", ".intercalate names ++ " " ++ verb ++
      " unexpected)"), []⟩]

def formProblem (form : TextForm) (s : String) : List Problem :=
  if form.fits s.toList then []
  else [⟨some (Text.quoted s ++ " does not match " ++ Text.quoted form.pattern), []⟩]

def isNumber : Value → Bool
  | .int _ | .float _ => true
  | _ => false

/-- Whether a number lies below a bound; a nan never does. -/
def isBelow (v bound : Value) : Bool :=
  match v.extent?, bound.extent? with
  | some a, some b => a.lt b
  | _, _ => false

def isAtMost (v bound : Value) : Bool :=
  match v.extent?, bound.extent? with
  | some a, some b => a.lt b || decide (a = b)
  | _, _ => false

def boundProblem (broken : Bool) (v : Value) (relation : String) (bound : Value) : List Problem :=
  if isNumber v && broken then [⟨v.inspect?.map (· ++ relation ++ bound.inspect), []⟩] else []

/-- The fields that a schema's own rules list. -/
def declaredFields (body : List Rule) : List String :=
  body.flatMap fun
    | .fields fields => fields.map (·.1)
    | _ => []

mutual
def problems : Schema → Value → List Problem
  | .rules body, v => problemsOfRules (declaredFields body) body v
  | .reference _ target, v => problems target v
termination_by structural s => s

def problemsOfRules (declared : List String) : List Rule → Value → List Problem
  | [], _ => []
  | r :: rs, v => problemsOfRule declared r v ++ problemsOfRules declared rs v
termination_by structural rs => rs

def problemsOfRule (declared : List String) : Rule → Value → List Problem
  | .kinds kinds, v => kindProblem kinds v
  | .oneOf tags, v => tagProblem tags v
  | .required keys, .map entries => missingProblems keys entries
  | .fields fields, .map entries => problemsOfFields fields entries
  | .fieldNames names, .map entries => entries.flatMap fun (key, _) => problems names (.str key)
  | .closed, .map entries => closedProblem (Entries.keys (undeclared declared entries))
  | .otherFields each, .map entries =>
    (undeclared declared entries).flatMap fun (key, v) => (problems each v).map (·.under (.key key))
  | .items each, .list items =>
    items.zipIdx.flatMap fun (v, i) => (problems each v).map (·.under (.index i))
  | .fewest count, .list items =>
    if items.length < count then [⟨(Value.list items).inspect?.map (· ++ " is too short"), []⟩] else []
  | .most count, .list items =>
    if items.length > count then [⟨(Value.list items).inspect?.map (· ++ " is too long"), []⟩] else []
  | .shortest length, .str s =>
    if s.length < length then
      [⟨some (Text.quoted s ++ (if length = 1 then " should be non-empty" else " is too short")), []⟩]
    else []
  | .form form, .str s => formProblem form s
  | .least bound, v => boundProblem (isBelow v bound) v " is less than the minimum of " bound
  | .greatest bound, v => boundProblem (isBelow bound v) v " is greater than the maximum of " bound
  | .above bound, v =>
    boundProblem (isAtMost v bound) v " is less than or equal to the minimum of " bound
  | _, _ => []
termination_by structural r => r

def problemsOfFields : List (String × Schema) → Entries Value → List Problem
  | [], _ => []
  | (name, s) :: rest, entries =>
    (match Entries.get? name entries with
      | some v => (problems s v).map (·.under (.key name))
      | none => []) ++ problemsOfFields rest entries
termination_by structural fields => fields
end

end ShaderLoom.Schema
