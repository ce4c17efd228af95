/-
  ShaderLoom.Preset — the shaders that come ready made, ids 0 to 18.
-/

import ShaderLoom.Config.Basic

namespace ShaderLoom.Preset

def hundredths (n : Nat) : Binary64 := .ofRatio false n 100

/-- A color with its channels in hundredths. -/
def color (red green blue : Nat) : Rgb := ⟨hundredths red, hundredths green, hundredths blue⟩

/-- Time running at so many hundred-thousandths of the clock. -/
def paced (n : Nat) : Timing := { scale := .float (.ofRatio false n 100000) }

/-- A vignette with its parameters in hundredths. -/
def darkened (strength smoothness base boost : Nat) : Vignette where
  strength := .float (hundredths strength)
  smoothness := .float (hundredths smoothness)
  baseBrightness := .float (hundredths base)
  brightnessBoost := .float (hundredths boost)

def domainWarp : ShaderConfig where
  id := .int 0
  name := .str "DOMAIN_WARP"
  description := .str "Base domain warping with fBM - organic flowing patterns"
  fallbackColor := .str "#0a0a1a"
  noise := .str NoiseKind.simplex.tag
  time := paced 100
  palette := .empty
  effect := .str EffectKind.domainWarp.tag
  useUniformColors := .bool true

def domainWarpEnhanced : ShaderConfig where
  id := .int 1
  name := .str "DOMAIN_WARP_ENHANCED"
  description := .str "Enhanced domain warping with tie-dye flow"
  fallbackColor := .str "#0a0a1a"
  noise := .str NoiseKind.simplex.tag
  time := paced 100
  palette := .empty
  effect := .str EffectKind.domainWarpTiedye.tag
  useUniformColors := .bool true

def warmFireSwirls : ShaderConfig where
  id := .int 2
  name := .str "WARM_FIRE_SWIRLS"
  description := .str "Multiple drifting swirl centers with warm colors"
  fallbackColor := .str "#1a0a0a"
  noise := .str NoiseKind.simplex.tag
  time := paced 25
  palette := ⟨[
    ("COLOR_RED", color 90 15 10),
    ("COLOR_ORANGE", color 100 50 10),
    ("COLOR_YELLOW", color 100 85 20),
    ("COLOR_MAGENTA", color 85 10 50)]⟩
  effect := .str EffectKind.multiSwirl.tag
  vignette := some (darkened 130 60 80 20)

def neonAuroraSpirals : ShaderConfig where
  id := .int 3
  name := .str "NEON_AURORA_SPIRALS"
  description := .str "Vibrant aurora-like spirals with neon colors"
  fallbackColor := .str "#0a1a0a"
  noise := .str NoiseKind.simplex.tag
  time := paced 20
  palette := ⟨[
    ("COLOR_PINK", color 100 20 60),
    ("COLOR_BLUE", color 10 40 100),
    ("COLOR_CYAN", color 0 90 90),
    ("COLOR_PURPLE", color 60 10 90)]⟩
  effect := .str EffectKind.auroraSpirals.tag
  vignette := some (darkened 140 50 75 25)

def cellularDreams : ShaderConfig where
  id := .int 4
  name := .str "CELLULAR_DREAMS"
  description := .str "Organic cellular patterns resembling aerial reef views"
  fallbackColor := .str "#0a0a1a"
  noise := .str NoiseKind.hash.tag
  time := paced 100
  palette := ⟨[
    ("TURQUOISE", color 25 88 82),
    ("CYAN", color 18 75 78),
    ("TEAL_DEEP", color 8 55 58),
    ("REEF_DARK", color 4 25 28)]⟩
  effect := .str EffectKind.cellular.tag

def liquidMarble : ShaderConfig where
  id := .int 5
  name := .str "LIQUID_MARBLE"
  description := .str "Flowing marble texture with organic veins"
  fallbackColor := .str "#0a0a1a"
  noise := .str NoiseKind.simplex.tag
  time := paced 25
  palette := ⟨[
    ("COLOR_NAVY", color 8 10 20),
    ("COLOR_GOLD", color 85 70 30),
    ("COLOR_CREAM", color 95 90 85),
    ("COLOR_ROSE", color 80 40 50)]⟩
  effect := .str EffectKind.liquidMarble.tag
  vignette := some (darkened 140 50 70 30)

def kaleidoscopeBloom : ShaderConfig where
  id := .int 6
  name := .str "KALEIDOSCOPE_BLOOM"
  description := .str "Kaleidoscopic blooming patterns with radial symmetry"
  fallbackColor := .str "#1a0a1a"
  noise := .str NoiseKind.simplex.tag
  time := paced 20
  palette := ⟨[
    ("COLOR_FUCHSIA", color 100 20 60),
    ("COLOR_VIOLET", color 60 20 90),
    ("COLOR_CORAL", color 100 50 40),
    ("COLOR_PEACH", color 100 80 60)]⟩
  effect := .str EffectKind.kaleidoscope.tag
  vignette := some (darkened 130 50 75 25)

def flowingStreams : ShaderConfig where
  id := .int 7
  name := .str "FLOWING_STREAMS"
  description := .str "Ocean shore-inspired flowing stream patterns"
  fallbackColor := .str "#0a1a1a"
  noise := .str NoiseKind.hash.tag
  time := paced 100
  palette := ⟨[
    ("DEEP_BLUE", color 15 35 55),
    ("TURQUOISE", color 25 75 72),
    ("LAVENDER", color 65 58 75),
    ("SAND", color 82 72 62),
    ("FOAM", color 95 97 98)]⟩
  effect := .str EffectKind.flowingStreams.tag

def radialFlowField : ShaderConfig where
  id := .int 8
  name := .str "RADIAL_FLOW_FIELD"
  description := .str "Deep ocean radial flow field patterns"
  fallbackColor := .str "#050510"
  noise := .str NoiseKind.simplex.tag
  time := paced 100
  palette := .empty
  effect := .str EffectKind.radialFlow.tag

def blobMetaballs : ShaderConfig where
  id := .int 9
  name := .str "BLOB_METABALLS"
  description := .str "Organic blob metaballs with smooth blending"
  fallbackColor := .str "#0a0a1a"
  noise := .str NoiseKind.simplex.tag
  time := paced 100
  palette := .empty
  effect := .str EffectKind.metaballs.tag

def chromaticBloom : ShaderConfig where
  id := .int 10
  name := .str "CHROMATIC_BLOOM"
  description := .str "Chromatic aberration bloom effects"
  fallbackColor := .str "#0a0a1a"
  noise := .str NoiseKind.simplex.tag
  time := paced 30
  palette := .empty
  effect := .str EffectKind.chromaticBloom.tag

def layeredOrbs : ShaderConfig where
  id := .int 11
  name := .str "LAYERED_ORBS"
  description := .str "Coral reef-inspired layered orb patterns"
  fallbackColor := .str "#0a0a1a"
  noise := .str NoiseKind.simplex.tag
  time := paced 100
  palette := .empty
  effect := .str EffectKind.layeredOrbs.tag

def stippledGradient : ShaderConfig where
  id := .int 12
  name := .str "STIPPLED_GRADIENT"
  description := .str "Stippled gradient textures with pointillist effect"
  fallbackColor := .str "#0a0a1a"
  noise := .str NoiseKind.hash.tag
  time := paced 100
  palette := .empty
  effect := .str EffectKind.stippled.tag

def breathingNebula : ShaderConfig where
  id := .int 13
  name := .str "BREATHING_NEBULA"
  description := .str "Fluid shoreline-inspired breathing nebula"
  fallbackColor := .str "#0a0a1a"
  noise := .str NoiseKind.both.tag
  time := paced 100
  palette := .empty
  effect := .str EffectKind.breathingNebula.tag

def magneticFieldLines : ShaderConfig where
  id := .int 14
  name := .str "MAGNETIC_FIELD_LINES"
  description := .str "Tidal pool-inspired magnetic field line patterns"
  fallbackColor := .str "#0a0a1a"
  noise := .str NoiseKind.simplex.tag
  time := paced 100
  palette := .empty
  effect := .str EffectKind.magneticField.tag

def crystallineFacets : ShaderConfig where
  id := .int 15
  name := .str "CRYSTALLINE_FACETS"
  description := .str "Seafoam crystalline facet patterns"
  fallbackColor := .str "#0a0a1a"
  noise := .str NoiseKind.hash.tag
  time := paced 100
  palette := .empty
  effect := .str EffectKind.crystalline.tag

def inkBloom : ShaderConfig where
  id := .int 16
  name := .str "INK_BLOOM"
  description := .str "Ink bloom spreading effect in water"
  fallbackColor := .str "#0a0a1a"
  noise := .str NoiseKind.both.tag
  time := paced 100
  palette := .empty
  effect := .str EffectKind.inkBloom.tag

def cellularMembrane : ShaderConfig where
  id := .int 17
  name := .str "CELLULAR_MEMBRANE"
  description := .str "Lagoon-inspired cellular membrane patterns"
  fallbackColor := .str "#0a1a1a"
  noise := .str NoiseKind.hash.tag
  time := paced 100
  palette := .empty
  effect := .str EffectKind.cellularMembrane.tag

def auroraCurtains : ShaderConfig where
  id := .int 18
  name := .str "AURORA_CURTAINS"
  description := .str "Ocean currents aurora curtain effect"
  fallbackColor := .str "#0a0a1a"
  noise := .str NoiseKind.both.tag
  time := paced 100
  palette := .empty
  effect := .str EffectKind.auroraCurtains.tag

def all : List ShaderConfig := [
  domainWarp, domainWarpEnhanced, warmFireSwirls, neonAuroraSpirals, cellularDreams,
  liquidMarble, kaleidoscopeBloom, flowingStreams, radialFlowField, blobMetaballs,
  chromaticBloom, layeredOrbs, stippledGradient, breathingNebula, magneticFieldLines,
  crystallineFacets, inkBloom, cellularMembrane, auroraCurtains]

/-- The presets under their ids. -/
def catalog : List (Int × ShaderConfig) := all.zipIdx.map fun (c, i) => ((i : Int), c)

def withId? (id : Nat) : Option ShaderConfig := all[id]?

end ShaderLoom.Preset
