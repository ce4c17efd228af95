/-
  ShaderLoom.Config.Decode — configurations read from mappings.

  Keys may be in either spelling. The respelled mapping is held to the schema first; what passes
  is then converted field by field, numbers to floats and missing fields to their defaults.
-/

import ShaderLoom.Config.Basic

namespace ShaderLoom

namespace ShaderConfig

/-- The entry of a key, an absent one being nothing. -/
def field (key : String) (entries : Entries Value) : Value := (Entries.get? key entries).getD .null

def fieldOr (key : String) (standard : Value) (entries : Entries Value) : Value :=
  (Entries.get? key entries).getD standard

def entriesOf : Value → Entries Value
  | .map entries => entries
  | _ => []

/-- The standard timing with the entries of a time block put over it as numbers. -/
def decodeTiming (block : Entries Value) : Except Fault Timing :=
  (Entries.mapKeys Text.snakeCase block).foldlM (fun (t : Timing) (key, value) => do
    let x ← value.toNumber
    match t.setter? key with
    | some put => return put (.float x)
    | none => throw .wrongKind) {}

def decodeVignette : Value → Except Fault (Option Vignette)
  | .null => .ok none
  | v => do return some (← Vignette.ofOverrides v)

/-- A configuration from a mapping that the schema has passed. -/
def decode (entries : Entries Value) : Except Fault ShaderConfig := do
  let time ← decodeTiming (entriesOf (field "time" entries))
  let palette ← Palette.ofValue
    (.map (entriesOf (field "colors" (entriesOf (field "palette" entries)))))
  let vignette ← decodeVignette (field "vignette" entries)
  return {
    id := .int ((field "id" entries).wholeNumber?.getD 0)
    name := .str (field "name" entries).text
    description := .str (fieldOr "description" (.str "") entries).text
    fallbackColor := .str (fieldOr "fallback_color" (.str "#000000") entries).text
    noise := field "noise" entries
    time, palette
    effect := field "effect" entries
    effectParams := entriesOf (field "effect_params" entries)
    vignette
    useUniformColors := .bool (field "use_uniform_colors" entries).isTrue }

/-- Decodes entries under respelled keys. -/
def ofNormalized (entries : Entries Value) : Except Fault ShaderConfig := do
  let verdict ← ShaderLoom.validate (.map entries)
  if verdict.ok then decode entries
  else throw (Fault.invalidConfig (field "name" entries) verdict.problems).told

def ofValue : Value → Except Fault ShaderConfig
  | .map entries => ofNormalized (Entries.mapKeys Text.snakeCase entries)
  | _ => .error .notAMapping

end ShaderConfig

end ShaderLoom
