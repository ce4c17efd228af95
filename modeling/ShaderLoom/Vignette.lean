/-
  ShaderLoom.Vignette — the radial darkening before a shader's final return.
-/

import ShaderLoom.Literal
import ShaderLoom.Text.Fragment
import ShaderLoom.Text.SnakeCase

namespace ShaderLoom

structure Vignette where
  strength : Value := .float (.ofRatio false 13 10)
  smoothness : Value := .float (.ofRatio false 6 10)
  baseBrightness : Value := .float (.ofRatio false 8 10)
  brightnessBoost : Value := .float (.ofRatio false 2 10)

namespace Vignette

def standard : Vignette := {}

/-- How to set the parameter of a name; other names have none. -/
def setter? (name : String) (v : Vignette) : Option (Value → Vignette) :=
  match name with
  | "strength" => some fun value => { v with strength := value }
  | "smoothness" => some fun value => { v with smoothness := value }
  | "base_brightness" => some fun value => { v with baseBrightness := value }
  | "brightness_boost" => some fun value => { v with brightnessBoost := value }
  | _ => none

def fields (v : Vignette) : Entries Value := [
  ("strength", v.strength),
  ("smoothness", v.smoothness),
  ("base_brightness", v.baseBrightness),
  ("brightness_boost", v.brightnessBoost)]

def toValue (v : Vignette) : Value := .map v.fields

/-- Puts one override, in either spelling of its key, over a vignette. Keys that name no
parameter are passed over and their values are not looked at. -/
def override (v : Vignette) (key : String) (value : Value) : Except Fault Vignette :=
  match v.setter? (Text.snakeCase key) with
  | some put => do return put (.float (← value.toNumber))
  | none => .ok v

def withOverrides (entries : Entries Value) : Except Fault Vignette :=
  entries.foldlM (fun v (key, value) => v.override key value) standard

/-- The standard vignette with the overrides of a mapping; what counts as absent overrides
nothing. -/
def ofOverrides (overrides : Value) : Except Fault Vignette :=
  if overrides.isTrue then
    match overrides with
    | .map entries => withOverrides entries
    | _ => .error .notAMapping
  else .ok standard

/-- The statements that darken `color`. -/
def source (v : Vignette) : Except Fault String := do
  let strength ← Literal.ofValue v.strength (some 1)
  let smoothness ← Literal.ofValue v.smoothness (some 1)
  let base ← Literal.ofValue v.baseBrightness (some 2)
  let boost ← Literal.ofValue v.brightnessBoost (some 2)
  return lines [
    "  // Vignette",
    "  float2 vignetteUV = xy / u_resolution;",
    "  float vignette = 1.0 - length((vignetteUV - 0.5) * " ++ strength ++ ");",
    "  vignette = smoothstep(0.0, " ++ smoothness ++ ", vignette);",
    "  color *= half(" ++ base ++ " + " ++ boost ++ " * vignette);"]

end Vignette

end ShaderLoom
