/-
  ShaderLoom.Color — colors, their literals and `#RRGGBB` notation.
-/

import ShaderLoom.Literal

namespace ShaderLoom

structure Rgb where
  red : Binary64
  green : Binary64
  blue : Binary64
  deriving DecidableEq

namespace Rgb

def channels (c : Rgb) : List Binary64 := [c.red, c.green, c.blue]

def toValue (c : Rgb) : Value := .list (c.channels.map .float)

/-- Three parts, each a number or text that writes one. -/
def ofValue (v : Value) : Except Fault Rgb := do
  let (r, g, b) ← v.threeParts
  return ⟨← r.toNumber, ← g.toNumber, ← b.toNumber⟩

/-- The color as a literal with two decimals a channel. -/
def literal (c : Rgb) : String :=
  let channel (x : Binary64) := Literal.ofNumber x (some 2)
  "float3(" ++ channel c.red ++ ", " ++ channel c.green ++ ", " ++ channel c.blue ++ ")"

/-- A channel written as two hexadecimal digits, over 255. -/
def hexChannel (a b : Char) : Except Fault Binary64 :=
  match Reading.hexPair? a b with
  | some n => .ok (.ofRatio (decide (n < 0)) n.natAbs 255)
  | none => .error (.notAHexPair (String.ofList [a, b]))

/-- Six hexadecimal digits after any number of `#`. -/
def ofHex (text : String) : Except Fault Rgb :=
  match text.toList.dropWhile (· == '#') with
  | [r, r', g, g', b, b'] => do
    return ⟨← hexChannel r r', ← hexChannel g g', ← hexChannel b b'⟩
  | _ => .error (.notAColor text)

end Rgb

end ShaderLoom
