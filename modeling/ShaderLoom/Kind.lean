/-
  ShaderLoom.Kind — the noise and the effects a shader can be built from, by tag.

  A configuration names them by tag; `ofTag?` reads a tag back and `tag` writes it
  (`NoiseKind.ofTag?_tag`, `EffectKind.ofTag?_tag`).
-/

namespace ShaderLoom

inductive NoiseKind where
  | simplex
  | hash
  | both
  deriving DecidableEq

inductive EffectKind where
  | domainWarp
  | domainWarpTiedye
  | multiSwirl
  | auroraSpirals
  | cellular
  | liquidMarble
  | kaleidoscope
  | flowingStreams
  | radialFlow
  | metaballs
  | chromaticBloom
  | layeredOrbs
  | stippled
  | breathingNebula
  | magneticField
  | crystalline
  | inkBloom
  | cellularMembrane
  | auroraCurtains
  deriving DecidableEq

namespace NoiseKind

def all : List NoiseKind := [simplex, hash, both]

def tag : NoiseKind → String
  | simplex => "simplex"
  | hash => "hash"
  | both => "both"

def ofTag? (s : String) : Option NoiseKind := all.find? (·.tag == s)

theorem mem_all (k : NoiseKind) : k ∈ all := by cases k <;> decide

theorem ofTag?_tag (k : NoiseKind) : ofTag? k.tag = some k := by cases k <;> decide

end NoiseKind

namespace EffectKind

def all : List EffectKind := [
  domainWarp, domainWarpTiedye, multiSwirl, auroraSpirals, cellular, liquidMarble, kaleidoscope,
  flowingStreams, radialFlow, metaballs, chromaticBloom, layeredOrbs, stippled, breathingNebula,
  magneticField, crystalline, inkBloom, cellularMembrane, auroraCurtains]

def tag : EffectKind → String
  | domainWarp => "domain_warp"
  | domainWarpTiedye => "domain_warp_tiedye"
  | multiSwirl => "multi_swirl"
  | auroraSpirals => "aurora_spirals"
  | cellular => "cellular"
  | liquidMarble => "liquid_marble"
  | kaleidoscope => "kaleidoscope"
  | flowingStreams => "flowing_streams"
  | radialFlow => "radial_flow"
  | metaballs => "metaballs"
  | chromaticBloom => "chromatic_bloom"
  | layeredOrbs => "layered_orbs"
  | stippled => "stippled"
  | breathingNebula => "breathing_nebula"
  | magneticField => "magnetic_field"
  | crystalline => "crystalline"
  | inkBloom => "ink_bloom"
  | cellularMembrane => "cellular_membrane"
  | auroraCurtains => "aurora_curtains"

def ofTag? (s : String) : Option EffectKind := all.find? (·.tag == s)

theorem mem_all (k : EffectKind) : k ∈ all := by cases k <;> decide

theorem ofTag?_tag (k : EffectKind) : ofTag? k.tag = some k := by cases k <;> decide

end EffectKind

end ShaderLoom
