/-
  ShaderLoom.Program — the source of a shader.

  A source is put together from parts in one fixed order, since later parts use names that
  earlier ones declare: header, uniforms, palette constants, noise, turbulence, the effect's
  helpers, and the entry point. A configuration decides which parts there are; the same
  configuration always gives the same source.
-/

import ShaderLoom.Config.Basic
import ShaderLoom.Effect.Catalog
import ShaderLoom.Noise

namespace ShaderLoom

namespace Program

def header : String := "// Generated by vibeshaders"

def baseUniforms : List String := [
  "uniform float u_time;",
  "uniform float2 u_resolution;",
  "uniform float u_complexity;"]

def colorUniforms : List String := [
  "uniform float3 u_colorA;",
  "uniform float3 u_colorB;",
  "uniform float3 u_colorC;"]

def uniforms (c : ShaderConfig) : String :=
  lines (baseUniforms ++ if c.useUniformColors.isTrue then colorUniforms else [])

def headerPart (c : ShaderConfig) : String :=
  header ++ "\n// Effect: " ++ c.effectTag ++ " (" ++ c.name.text ++ ")"

/-- Palette constants are left out when the uniform colors are in use. -/
def palettePart (c : ShaderConfig) : List String :=
  if c.useUniformColors.isTrue || c.palette.colors.isEmpty then []
  else ["// Color Palette\n" ++ c.palette.constants]

/-- The statement that sets `time`; an offset of zero is not written. -/
def timeStatement (t : Timing) : Except Fault String := do
  let scale ← Literal.ofValue t.scale none
  let offset ← if t.offset.isTrue then (" + " ++ ·) <$> Literal.ofValue t.offset none else pure ""
  return "  float time = u_time * " ++ scale ++ offset ++ ";"

/-- The statement that scales the pattern, for a parameter that is a number. -/
def patternScale (params : Entries Value) : Except Fault (List String) :=
  match Entries.get? "patternScale" params with
  | some v@(.int _) | some v@(.float _) => do
    return ["  uv *= " ++ (← Literal.ofValue v none) ++ ";"]
  | _ => .ok []

def entryPoint (c : ShaderConfig) (e : Effect) : Except Fault String := do
  let time ← timeStatement c.time
  let scale ← patternScale c.effectParams
  let vignette ← c.resolvedVignette.source
  return lines ([
    "half4 main(float2 xy) \x7b",
    "  float2 uv = xy / u_resolution;",
    "  float aspect = u_resolution.x / u_resolution.y;",
    "  uv.x *= aspect;",
    "",
    time] ++ scale ++ [
    "",
    e.main,
    "",
    vignette,
    "",
    "  return half4(color, 1.0);",
    "\x7d"])

def parts (c : ShaderConfig) : Except Fault (List String) := do
  let effect := (← EffectKind.ofValue c.effect).effect
  c.name.checkPrintable
  let noise ← NoiseKind.ofValue c.noise
  let main ← entryPoint c effect
  return [headerPart c, "// Uniforms\n" ++ uniforms c] ++ palettePart c ++
    noise.sources ++ (if effect.turbulent then [Noise.turbulence] else []) ++
    ["// Effect Helpers\n" ++ effect.helpers, "// Main\n" ++ main]

def compose (c : ShaderConfig) : Except Fault String := do
  return fragments (← parts c) ++ "\n"

end Program

end ShaderLoom
