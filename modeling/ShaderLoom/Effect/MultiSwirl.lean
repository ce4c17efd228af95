/-
  ShaderLoom.Effect.MultiSwirl — several drifting centers that swirl the canvas around them.
-/

import ShaderLoom.Effect.Basic

namespace ShaderLoom.Effect

def multiSwirl : Effect where
  helpers := "// ============================================
// MULTI-SWIRL
// ============================================

float2 multiSwirl(float2 uv, float time) \x7b
  float2 result = uv;

  float2 center1 = float2(0.3 + sin(time * 0.15) * 0.4, 0.4 + cos(time * 0.2) * 0.3);
  float2 center2 = float2(0.7 + cos(time * 0.18) * 0.3, 0.6 + sin(time * 0.12) * 0.4);
  float2 center3 = float2(0.5 + sin(time * 0.22) * 0.35, 0.3 + cos(time * 0.16) * 0.35);
  float2 center4 = float2(0.4 + cos(time * 0.14) * 0.3, 0.7 + sin(time * 0.19) * 0.3);

  for (int i = 0; i < 4; i++) \x7b
    float2 center;
    float strength;
    float dir;

    if (i == 0) \x7b center = center1; strength = 1.5; dir = 1.0; \x7d
    else if (i == 1) \x7b center = center2; strength = 1.2; dir = -1.0; \x7d
    else if (i == 2) \x7b center = center3; strength = 1.8; dir = 1.0; \x7d
    else \x7b center = center4; strength = 1.0; dir = -1.0; \x7d

    float2 delta = result - center;
    float dist = length(delta);
    float angle = dir * strength / (dist + 0.3) + time * 0.3 * dir;
    float c = cos(angle);
    float s = sin(angle);

    float influence = smoothstep(0.8, 0.0, dist);
    float2 swirled = float2(c * delta.x - s * delta.y, s * delta.x + c * delta.y) + center;
    result = mix(result, swirled, influence * 0.6);
  \x7d

  return result;
\x7d"
  main := "  float octaves = 1.0 + u_complexity * 4.0;

  float2 swirledUV = multiSwirl(uv, time);

  float2 jitter = float2(
    snoise(swirledUV * 3.0 + time * 0.5),
    snoise(swirledUV * 3.0 + time * 0.5 + 100.0)
  );
  swirledUV += jitter * 0.08;

  float n1 = fbm(swirledUV * 2.5, octaves);
  float n2 = fbm(swirledUV * 1.5 + time, octaves * 0.7);
  float n3 = fbm(swirledUV * 4.0 - time * 0.5, octaves * 0.5);

  n1 = n1 * 0.5 + 0.5;
  n2 = n2 * 0.5 + 0.5;
  n3 = n3 * 0.5 + 0.5;

  half3 color = mix(half3(COLOR_RED), half3(COLOR_ORANGE), half(n1));
  color = mix(color, half3(COLOR_YELLOW), half(n2 * 0.6));
  color = mix(color, half3(COLOR_MAGENTA), half(n3 * 0.4));

  color = pow(color, half3(0.95));"

end ShaderLoom.Effect
