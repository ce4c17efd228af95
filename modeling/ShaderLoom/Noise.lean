/-
  ShaderLoom.Noise — the noise functions a shader can be given.

  Each fragment defines functions of fixed names (`functionNames`); a noise kind brings the
  fragments of `NoiseKind.sources`, and no kind defines a function twice. Loop bounds are
  literals: the octave count only gates an early break. In the texts an opening brace is
  written `\x7b` and a closing one `\x7d`.
-/

import ShaderLoom.Kind
import ShaderLoom.Text.Fragment

namespace ShaderLoom

namespace Noise

def simplex : String :=
  "// ============================================
// SIMPLEX NOISE (2D)
// ============================================

float3 mod289_3(float3 x) \x7b
  return x - floor(x * (1.0 / 289.0)) * 289.0;
\x7d

float2 mod289_2(float2 x) \x7b
  return x - floor(x * (1.0 / 289.0)) * 289.0;
\x7d

float3 permute(float3 x) \x7b
  return mod289_3(((x * 34.0) + 1.0) * x);
\x7d

float snoise(float2 v) \x7b
  const float4 C = float4(
    0.211324865405187,
    0.366025403784439,
    -0.577350269189626,
    0.024390243902439
  );

  float2 i = floor(v + dot(v, C.yy));
  float2 x0 = v - i + dot(i, C.xx);

  float2 i1 = (x0.x > x0.y) ? float2(1.0, 0.0) : float2(0.0, 1.0);
  float4 x12 = x0.xyxy + C.xxzz;
  x12.xy -= i1;

  i = mod289_2(i);
  float3 p = permute(permute(i.y + float3(0.0, i1.y, 1.0))
                    + i.x + float3(0.0, i1.x, 1.0));

  float3 m = max(0.5 - float3(dot(x0, x0), dot(x12.xy, x12.xy), dot(x12.zw, x12.zw)), 0.0);
  m = m * m;
  m = m * m;

  float3 x = 2.0 * fract(p * C.www) - 1.0;
  float3 h = abs(x) - 0.5;
  float3 ox = floor(x + 0.5);
  float3 a0 = x - ox;

  m *= 1.79284291400159 - 0.85373472095314 * (a0 * a0 + h * h);

  float3 g;
  g.x = a0.x * x0.x + h.x * x0.y;
  g.yz = a0.yz * x12.xz + h.yz * x12.yw;
  return 130.0 * dot(m, g);
\x7d"

def hash : String :=
  "// ============================================
// HASH VALUE NOISE
// ============================================

float hash(float2 p) \x7b
  return fract(sin(dot(p, float2(127.1, 311.7))) * 43758.5453);
\x7d

float noise(float2 p) \x7b
  float2 i = floor(p);
  float2 f = fract(p);
  f = f * f * (3.0 - 2.0 * f);

  return mix(
    mix(hash(i), hash(i + float2(1.0, 0.0)), f.x),
    mix(hash(i + float2(0.0, 1.0)), hash(i + float2(1.0, 1.0)), f.x),
    f.y
  );
\x7d"

/-- Fractal sum over simplex noise. -/
def simplexFbm : String :=
  "// ============================================
// FRACTAL BROWNIAN MOTION (simplex)
// ============================================

float fbm(float2 p, float octaves) \x7b
  float value = 0.0;
  float amplitude = 0.5;
  float frequency = 1.0;
  float maxValue = 0.0;

  for (float i = 0.0; i < 5.0; i += 1.0) \x7b
    if (i >= octaves) break;
    value += amplitude * snoise(p * frequency);
    maxValue += amplitude;
    amplitude *= 0.5;
    frequency *= 2.0;
  \x7d

  return value / maxValue;
\x7d"

/-- Fractal sum over hash noise. -/
def hashFbm : String :=
  "// ============================================
// FRACTAL BROWNIAN MOTION (hash)
// ============================================

float fbm(float2 p, int octaves) \x7b
  float value = 0.0;
  float amplitude = 0.5;
  float frequency = 1.0;

  for (int i = 0; i < 6; i++) \x7b
    if (i >= octaves) break;
    value += amplitude * noise(p * frequency);
    frequency *= 2.0;
    amplitude *= 0.5;
  \x7d
  return value;
\x7d"

/-- A sum of absolute simplex noise, for the effects that ask for it. -/
def turbulence : String :=
  "// ============================================
// TURBULENCE
// ============================================

float turbulence(float2 p, float octaves) \x7b
  float value = 0.0;
  float amplitude = 1.0;
  float frequency = 1.0;
  float maxValue = 0.0;

  for (float i = 0.0; i < 6.0; i += 1.0) \x7b
    if (i >= octaves) break;
    value += amplitude * abs(snoise(p * frequency));
    maxValue += amplitude;
    amplitude *= 0.5;
    frequency *= 2.0;
  \x7d

  return value / maxValue;
\x7d"

/-- The names that fragments define; an effect's helpers must not reuse them. -/
def functionNames : List String :=
  ["mod289_3", "mod289_2", "permute", "snoise", "hash", "noise", "fbm", "turbulence"]

end Noise

namespace NoiseKind

/-- `both` carries the two noises but only the simplex sum. -/
def sources : NoiseKind → List String
  | simplex => [Noise.simplex, Noise.simplexFbm]
  | hash => [Noise.hash, Noise.hashFbm]
  | both => [Noise.simplex, Noise.hash, Noise.simplexFbm]

end NoiseKind

end ShaderLoom
