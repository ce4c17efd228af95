/-
  ShaderLoom.Proofs.Program.Length — how long a source can be.

  The fixed texts of a source have at most `textLimit` characters each, so a source is no longer than a
  few of these and what its configuration adds: the name, the constants of the palette, and the
  statements with numbers in them (`length_compose_le`).
-/

import Mathlib.Algebra.Order.BigOperators.Group.List
import Mathlib.Algebra.Order.Ring.Nat
import ShaderLoom.Proofs.Program.Layout

namespace ShaderLoom.Program

open ShaderLoom.Outcome

variable {c : ShaderConfig} {source : String}

theorem length_lines_le (ls : List String) : (lines ls).length ≤ (ls.map (·.length + 1)).sum := by
  cases ls with
  | nil => exact Nat.le_refl 0
  | cons l ls =>
    have hbelow : (ls.map fun m => (below m).length).sum = (ls.map (·.length + 1)).sum := rfl
    rw [String.length, toList_lines, List.length_append, List.length_flatMap, hbelow, List.map_cons, List.sum_cons]
    exact Nat.add_le_add_right (Nat.le_succ _) _

theorem length_fragments_le (ps : List String) : (fragments ps).length ≤ (ps.map (·.length + 2)).sum := by
  cases ps with
  | nil => exact Nat.le_refl 0
  | cons p ps =>
    have hapart : (ps.map fun q => (apart q).length).sum = (ps.map (·.length + 2)).sum := rfl
    rw [String.length, toList_fragments_cons, List.length_append, List.length_flatMap, hapart, List.map_cons,
      List.sum_cons]
    exact Nat.add_le_add_right (Nat.le_add_right _ 2) _

/-! ## Parts -/

theorem length_header_le (effect : EffectKind) (h : c.effect = .str effect.tag) :
    (headerPart c).length ≤ c.name.text.length + 100 := by
  have htags : ∀ kind : EffectKind, kind.tag.length ≤ 30 := by
    intro kind
    cases kind <;> decide
  have htag : c.effectTag.length ≤ 30 := by
    rw [ShaderConfig.effectTag, h]
    exact htags effect
  have hfixed : header.length + "\n// Effect: ".length + " (".length + ")".length ≤ 70 := by decide
  simp only [headerPart, String.length_append]
  omega

theorem length_uniforms_le (c : ShaderConfig) : (uniforms c).length ≤ 300 := by
  have hall : ∀ b : Bool, ((baseUniforms ++ if b then colorUniforms else []).map (·.length + 1)).sum ≤ 300 := by decide
  exact Nat.le_trans (length_lines_le _) (hall _)

theorem length_le_of_mem {sources : List String} {k : Nat} (h : ∀ f ∈ sources, f.length ≤ textLimit)
    (hk : sources.length ≤ k) : (sources.map (·.length + 2)).sum ≤ k * (textLimit + 2) := by
  have heach : ∀ n ∈ sources.map (·.length + 2), n ≤ textLimit + 2 := by
    intro n hn
    obtain ⟨f, hf, rfl⟩ := List.mem_map.mp hn
    exact Nat.add_le_add_right (h f hf) 2
  have hsum := List.sum_le_card_nsmul _ _ heach
  rw [List.length_map, Nat.nsmul_eq_mul] at hsum
  exact Nat.le_trans hsum (Nat.mul_le_mul_right _ hk)

theorem length_noise_le (noise : NoiseKind) : (noise.sources.map (·.length + 2)).sum ≤ 3 * (textLimit + 2) := by
  refine length_le_of_mem (fun f hf => (library_noise hf).short) ?_
  cases noise <;> exact Nat.le_of_ble_eq_true rfl

theorem length_turbulence_le (b : Bool) :
    ((if b then [Noise.turbulence] else []).map (·.length + 2)).sum ≤ 1 * (textLimit + 2) := by
  refine length_le_of_mem (fun f hf => ?_) ?_
  · split at hf
    · exact List.mem_singleton.mp hf ▸ defines_turbulence.short
    · cases hf
  · cases b <;> exact Nat.le_of_ble_eq_true rfl

theorem length_vignette_le {v : Vignette} {s : String} (h : v.source = .ok s) : ∃ strength smoothness base boost,
    Literal.ofValue v.strength (some 1) = .ok strength ∧ Literal.ofValue v.smoothness (some 1) = .ok smoothness ∧
      Literal.ofValue v.baseBrightness (some 2) = .ok base ∧ Literal.ofValue v.brightnessBoost (some 2) = .ok boost ∧
      s.length ≤ strength.length + smoothness.length + base.length + boost.length + 300 := by
  obtain ⟨strength, hstrength, h⟩ := bind_eq_ok.mp h
  obtain ⟨smoothness, hsmoothness, h⟩ := bind_eq_ok.mp h
  obtain ⟨base, hbase, h⟩ := bind_eq_ok.mp h
  obtain ⟨boost, hboost, h⟩ := bind_eq_ok.mp h
  refine ⟨strength, smoothness, base, boost, hstrength, hsmoothness, hbase, hboost, ?_⟩
  have hfixed : "  // Vignette".length + "  float2 vignetteUV = xy / u_resolution;".length +
      ("  float vignette = 1.0 - length((vignetteUV - 0.5) * ".length + ");".length) +
      ("  vignette = smoothstep(0.0, ".length + ", vignette);".length) +
      ("  color *= half(".length + " + ".length + " * vignette);".length) ≤ 250 := by decide
  have hlines := Except.ok.inj h ▸ length_lines_le _
  simp only [List.map_cons, List.map_nil, List.sum_cons, List.sum_nil, String.length_append] at hlines
  omega

/-- An entry point but for its statements with numbers. -/
theorem length_entry_le {effect : EffectKind} {main : String} (h : entryPoint c effect.effect = .ok main) :
    ∃ time scale vignette, timeStatement c.time = .ok time ∧ patternScale c.effectParams = .ok scale ∧
      c.resolvedVignette.source = .ok vignette ∧
      main.length ≤ time.length + (scale.map (·.length + 1)).sum + vignette.length + textLimit + 300 := by
  obtain ⟨time, htime, h⟩ := bind_eq_ok.mp h
  obtain ⟨scale, hscale, h⟩ := bind_eq_ok.mp h
  obtain ⟨vignette, hvignette, h⟩ := bind_eq_ok.mp h
  refine ⟨time, scale, vignette, htime, hscale, hvignette, ?_⟩
  have hmain : effect.effect.main.length ≤ textLimit := (body_main effect).short
  have hfixed : "half4 main(float2 xy) \x7b".length + "  float2 uv = xy / u_resolution;".length +
      "  float aspect = u_resolution.x / u_resolution.y;".length + "  uv.x *= aspect;".length +
      "  return half4(color, 1.0);".length + "\x7d".length + 4 * "".length ≤ 200 := by decide
  have hlines := Except.ok.inj h ▸ length_lines_le _
  simp only [List.map_append, List.map_cons, List.map_nil, List.sum_append, List.sum_cons, List.sum_nil] at hlines
  omega

/-- A source is no longer than what its configuration adds to the fixed texts. -/
theorem length_compose_le (h : compose c = .ok source) :
    ∃ time scale vignette, timeStatement c.time = .ok time ∧ patternScale c.effectParams = .ok scale ∧
      c.resolvedVignette.source = .ok vignette ∧
      source.length ≤ c.name.text.length + ((palettePart c).map (·.length + 2)).sum + time.length +
        (scale.map (·.length + 1)).sum + vignette.length + 7 * textLimit := by
  obtain ⟨effect, noise, main, heffect, -, -, hmain, rfl⟩ := compose_eq_ok_iff.mp h
  obtain ⟨time, scale, vignette, htime, hscale, hvignette, hentry⟩ := length_entry_le hmain
  refine ⟨time, scale, vignette, htime, hscale, hvignette, ?_⟩
  have hheader := length_header_le effect heffect
  have huniforms := length_uniforms_le c
  have hnoise := length_noise_le noise
  have hturbulence := length_turbulence_le effect.effect.turbulent
  have hhelpers : effect.effect.helpers.length ≤ textLimit := (defines_helpers effect).short
  have htitles : "// Uniforms\n".length + "// Effect Helpers\n".length + "// Main\n".length + "\n".length ≤ 100 := by decide
  have hparts := length_fragments_le (partsWith c effect noise main)
  have hlimit : textLimit = 10000 := rfl
  simp only [partsWith, List.map_append, List.map_cons, List.map_nil, List.sum_append, List.sum_cons, List.sum_nil,
    String.length_append] at hparts ⊢
  omega

end ShaderLoom.Program
