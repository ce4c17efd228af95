/-
  ShaderLoom.Schema.Basic — the rules a value can be held to, and their written form.

  A schema is a row of rules, or a reference to a schema known by an address. A rule speaks of
  the kinds of value it applies to and lets every other value pass. `toValue` writes a schema
  as the value one would put into a file.
-/

import ShaderLoom.Value.Basic

namespace ShaderLoom

/-- The kinds of value that a schema tells apart. A whole number is any number without a
fraction; truth values are not numbers. -/
inductive ValueKind where
  | mapping
  | list
  | text
  | number
  | wholeNumber
  | truth
  | nothing
  deriving DecidableEq

/-- Two forms of text. -/
inductive TextForm where
  | hexColor
  | identifier
  deriving DecidableEq

mutual
inductive Schema where
  | rules (rules : List Rule)
  | reference (address : String) (target : Schema)

inductive Rule where
  | kinds (kinds : List ValueKind)
  | oneOf (tags : List String)
  | required (keys : List String)
  | fields (fields : List (String × Schema))
  | fieldNames (names : Schema)
  /-- No field beyond those that `fields` lists. -/
  | closed
  /-- What each field beyond those that `fields` lists must be. -/
  | otherFields (each : Schema)
  | items (each : Schema)
  | fewest (count : Nat)
  | most (count : Nat)
  | shortest (length : Nat)
  | form (form : TextForm)
  | least (bound : Value)
  | greatest (bound : Value)
  | above (bound : Value)
end

/-- A schema that others refer to by its address. -/
structure NamedSchema where
  address : String
  body : List Rule

def NamedSchema.reference (s : NamedSchema) : Schema := .reference s.address (.rules s.body)

namespace ValueKind

def name : ValueKind → String
  | mapping => "object"
  | list => "array"
  | text => "string"
  | number => "number"
  | wholeNumber => "integer"
  | truth => "boolean"
  | nothing => "null"

def admits : ValueKind → Value → Bool
  | mapping, .map _ | list, .list _ | text, .str _ | truth, .bool _ | nothing, .null => true
  | number, .int _ | number, .float _ | wholeNumber, .int _ => true
  | wholeNumber, .float x => x.toInt?.isSome
  | _, _ => false

end ValueKind

namespace TextForm

def isHexDigit (c : Char) : Bool :=
  ('0' ≤ c && c ≤ '9') || ('A' ≤ c && c ≤ 'F') || ('a' ≤ c && c ≤ 'f')

def isNameStart (c : Char) : Bool := ('A' ≤ c && c ≤ 'Z') || ('a' ≤ c && c ≤ 'z') || c == '_'

def isNamePart (c : Char) : Bool := isNameStart c || ('0' ≤ c && c ≤ '9')

/-- Whether nothing is left but one line end at most. -/
def atEnd (rest : List Char) : Bool := rest == [] || rest == ['\n']

/-- A form may be followed by one line end. -/
def fits : TextForm → List Char → Bool
  | hexColor, '#' :: cs => (cs.take 6).length == 6 && (cs.take 6).all isHexDigit && atEnd (cs.drop 6)
  | identifier, c :: cs => isNameStart c && atEnd (cs.dropWhile isNamePart)
  | _, _ => false

def pattern : TextForm → String
  | hexColor => "^#[0-9A-Fa-f]\x7b6\x7d$"
  | identifier => "^[A-Za-z_][A-Za-z0-9_]*$"

end TextForm

namespace Schema

def texts (l : List String) : Value := .list (l.map .str)

/-! ## Written form -/

mutual
def toValue : Schema → Value
  | .rules body => .map (rulesToEntries body)
  | .reference address _ => .map [("$ref", .str address)]
termination_by structural s => s

def rulesToEntries : List Rule → List (String × Value)
  | [] => []
  | r :: rs => ruleToEntry r :: rulesToEntries rs
termination_by structural rs => rs

def ruleToEntry : Rule → String × Value
  | .kinds [k] => ("type", .str k.name)
  | .kinds ks => ("type", texts (ks.map (·.name)))
  | .oneOf tags => ("enum", texts tags)
  | .required keys => ("required", texts keys)
  | .fields fields => ("properties", .map (fieldsToEntries fields))
  | .fieldNames names => ("propertyNames", toValue names)
  | .closed => ("additionalProperties", .bool false)
  | .otherFields each => ("additionalProperties", toValue each)
  | .items each => ("items", toValue each)
  | .fewest n => ("minItems", .int n)
  | .most n => ("maxItems", .int n)
  | .shortest n => ("minLength", .int n)
  | .form f => ("pattern", .str f.pattern)
  | .least bound => ("minimum", bound)
  | .greatest bound => ("maximum", bound)
  | .above bound => ("exclusiveMinimum", bound)
termination_by structural r => r

def fieldsToEntries : List (String × Schema) → List (String × Value)
  | [] => []
  | (name, s) :: rest => (name, toValue s) :: fieldsToEntries rest
termination_by structural fields => fields
end

end Schema

/-- The written form of a schema with its address. -/
def NamedSchema.toValue (s : NamedSchema) : Value :=
  .map (("$schema", .str "https://json-schema.org/draft/2020-12/schema") ::
    ("$id", .str s.address) :: Schema.rulesToEntries s.body)

end ShaderLoom
