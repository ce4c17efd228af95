/-
  ShaderLoom.Morph.Declarations — what a morphing shader declares.

  The dissolve is masked by noise of four octaves, written out one by one since loop bounds must
  be constants. The text is spelled with the vector types `float2` and so on; in a shader that
  uses the `vec` types its names are respelled (`Dialect.helpers`). An opening brace is written
  `\x7b` and a closing one `\x7d`.
-/

import ShaderLoom.Text.Fragment
import ShaderLoom.Token

namespace ShaderLoom

/-- The spelling of vector types. -/
inductive Dialect where
  | float
  | vec
  deriving DecidableEq

namespace Morph

def uniforms : List String := [
  "uniform float u_morphProgress;",
  "uniform float u_morphDirection;"]

def helpers : String :=
  "// === MORPH TRANSITION ===

float morphHash(float2 p) \x7b
  return fract(sin(dot(p, float2(127.1, 311.7))) * 43758.5453);
\x7d

float morphNoise(float2 p) \x7b
  float2 i = floor(p);
  float2 f = fract(p);
  float2 u = f * f * (3.0 - 2.0 * f);

  return mix(
    mix(morphHash(i + float2(0.0, 0.0)), morphHash(i + float2(1.0, 0.0)), u.x),
    mix(morphHash(i + float2(0.0, 1.0)), morphHash(i + float2(1.0, 1.0)), u.x),
    u.y
  );
\x7d

float morphFbm(float2 p) \x7b
  float value = 0.0;
  float amplitude = 0.5;
  float frequency = 1.0;

  // Octave 1
  value += amplitude * morphNoise(p * frequency);
  frequency *= 2.0;
  amplitude *= 0.5;
  // Octave 2
  value += amplitude * morphNoise(p * frequency);
  frequency *= 2.0;
  amplitude *= 0.5;
  // Octave 3
  value += amplitude * morphNoise(p * frequency);
  frequency *= 2.0;
  amplitude *= 0.5;
  // Octave 4
  value += amplitude * morphNoise(p * frequency);

  return value;
\x7d

float getMorphAlpha(float2 xy, float2 resolution, float progress, float direction) \x7b
  float2 uv = xy / min(resolution.x, resolution.y);
  float grain = morphFbm(uv * 3.0);

  // Threshold sweeps from above the noise range to below it as progress grows
  float edge = 0.15;
  float threshold = mix(1.0 + edge, -edge, progress);
  float mask = smoothstep(threshold - edge, threshold + edge, grain);

  return direction > 0.0 ? mask : (1.0 - mask);
\x7d

// === END MORPH TRANSITION ===
"

end Morph

namespace Dialect

def pair : Dialect → String
  | float => "float2"
  | vec => "vec2"

/-- A name of a vector type in the `vec` spelling. -/
def respelled (name : String) : String :=
  match name with
  | "float2" => "vec2"
  | "float3" => "vec3"
  | "float4" => "vec4"
  | other => other

def helpers : Dialect → String
  | float => Morph.helpers
  | vec => String.join ((Token.tokenize Morph.helpers).map fun t => respelled t.text)

def resolutionUniform (d : Dialect) : String := "uniform " ++ d.pair ++ " u_resolution;"

end Dialect

end ShaderLoom
