/-
  ShaderLoom.Config.Basic — the configuration of one shader.

  A configuration holds its fields as they were given; only the palette is taken apart. Which
  configurations make sense is for the schema to say (`ShaderConfig.verdict`), on the mapping
  that a configuration is written as (`ShaderConfig.toValue`); `ShaderConfig.validate` tells it.
-/

import ShaderLoom.Palette
import ShaderLoom.Schema.Shader
import ShaderLoom.Vignette

namespace ShaderLoom

/-- How a shader's time runs against the clock. -/
structure Timing where
  scale : Value := .float (.ofRatio false 25 100000)
  offset : Value := .float .zero

structure ShaderConfig where
  id : Value
  name : Value
  description : Value
  fallbackColor : Value
  noise : Value
  time : Timing
  palette : Palette
  effect : Value
  effectParams : Entries Value := []
  vignette : Option Vignette := none
  useUniformColors : Value := .bool false

namespace Timing

def setter? (name : String) (t : Timing) : Option (Value → Timing) :=
  match name with
  | "scale" => some fun value => { t with scale := value }
  | "offset" => some fun value => { t with offset := value }
  | _ => none

def toValue (t : Timing) : Value := .map [("scale", t.scale), ("offset", t.offset)]

end Timing

namespace ShaderConfig

def resolvedVignette (c : ShaderConfig) : Vignette := c.vignette.getD .standard

/-- The tags as text, whatever was given for them. -/
def noiseTag (c : ShaderConfig) : String := c.noise.text

def effectTag (c : ShaderConfig) : String := c.effect.text

/-- The mapping that a configuration is written as. -/
def toEntries (c : ShaderConfig) : Entries Value :=
  [("id", c.id),
    ("name", c.name),
    ("description", c.description),
    ("fallback_color", c.fallbackColor),
    ("noise", .str c.noiseTag),
    ("time", c.time.toValue),
    ("palette", .map [("colors", c.palette.toValue)]),
    ("effect", .str c.effectTag),
    ("effect_params", .map c.effectParams),
    ("use_uniform_colors", c.useUniformColors)] ++
  match c.vignette with
  | some v => [("vignette", v.toValue)]
  | none => []

def toValue (c : ShaderConfig) : Value := .map c.toEntries

def verdict (c : ShaderConfig) : Verdict := judge c.toValue

/-- The verdict in words; the tags are written out first. -/
def validate (c : ShaderConfig) : Except Fault Verdict := do
  c.noise.checkPrintable
  c.effect.checkPrintable
  ShaderLoom.validate c.toValue

end ShaderConfig

end ShaderLoom
