/-
  ShaderLoom.Effect.Catalog — the effect of every kind.
-/

import ShaderLoom.Effect.AuroraCurtains
import ShaderLoom.Effect.AuroraSpirals
import ShaderLoom.Effect.BreathingNebula
import ShaderLoom.Effect.Cellular
import ShaderLoom.Effect.CellularMembrane
import ShaderLoom.Effect.ChromaticBloom
import ShaderLoom.Effect.Crystalline
import ShaderLoom.Effect.DomainWarp
import ShaderLoom.Effect.FlowingStreams
import ShaderLoom.Effect.InkBloom
import ShaderLoom.Effect.Kaleidoscope
import ShaderLoom.Effect.LayeredOrbs
import ShaderLoom.Effect.LiquidMarble
import ShaderLoom.Effect.MagneticField
import ShaderLoom.Effect.Metaballs
import ShaderLoom.Effect.MultiSwirl
import ShaderLoom.Effect.RadialFlow
import ShaderLoom.Effect.Stippled
import ShaderLoom.Kind
import ShaderLoom.Value.Convert

namespace ShaderLoom

def EffectKind.effect : EffectKind → Effect
  | domainWarp => Effect.domainWarp
  | domainWarpTiedye => Effect.domainWarpTiedye
  | multiSwirl => Effect.multiSwirl
  | auroraSpirals => Effect.auroraSpirals
  | cellular => Effect.cellular
  | liquidMarble => Effect.liquidMarble
  | kaleidoscope => Effect.kaleidoscope
  | flowingStreams => Effect.flowingStreams
  | radialFlow => Effect.radialFlow
  | metaballs => Effect.metaballs
  | chromaticBloom => Effect.chromaticBloom
  | layeredOrbs => Effect.layeredOrbs
  | stippled => Effect.stippled
  | breathingNebula => Effect.breathingNebula
  | magneticField => Effect.magneticField
  | crystalline => Effect.crystalline
  | inkBloom => Effect.inkBloom
  | cellularMembrane => Effect.cellularMembrane
  | auroraCurtains => Effect.auroraCurtains

/-- The effect kind that a value names. -/
def EffectKind.ofValue (v : Value) : Except Fault EffectKind := v.named ofTag? .unknownEffect

/-- The noise kind that a value names. -/
def NoiseKind.ofValue (v : Value) : Except Fault NoiseKind := v.named ofTag? (.unknownName · .noise)

end ShaderLoom
