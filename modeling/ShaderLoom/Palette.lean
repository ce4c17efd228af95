/-
  ShaderLoom.Palette — named colors, baked into a shader as constants in the order given.
-/

import ShaderLoom.Color
import ShaderLoom.Text.Fragment

namespace ShaderLoom

structure Palette where
  colors : Entries Rgb
  deriving DecidableEq

namespace Palette

def empty : Palette := ⟨[]⟩

/-- Colors under names, from a mapping or a row of pairs. All pairs are taken apart before the
first color is read. -/
def ofValue (v : Value) : Except Fault Palette := do
  let pairs ← v.pairs
  let colors ← pairs.mapM fun (name, color) => do
    name.checkPrintable
    return (name.text, ← Rgb.ofValue color)
  return ⟨Entries.ofPairs colors⟩

def toValue (p : Palette) : Value := .map (p.colors.map fun (name, color) => (name, color.toValue))

def constant (name : String) (color : Rgb) : String :=
  "const float3 " ++ name ++ " = " ++ color.literal ++ ";"

def constants (p : Palette) : String :=
  lines (p.colors.map fun (name, color) => constant name color)

end Palette

end ShaderLoom
