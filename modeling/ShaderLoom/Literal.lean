/-
  ShaderLoom.Literal — float literals of the shading language.

  A literal has a point and no exponent. With a number of decimals the value is fixed to them;
  without, it is in its plain form, and one whose plain form needs an exponent gets seventeen
  decimals less the zeros at their end.
-/

import ShaderLoom.Number.Written
import ShaderLoom.Text.Blank
import ShaderLoom.Value.Convert

namespace ShaderLoom.Literal

/-- Gives a text a point with something after it. -/
def pointed (cs : List Char) : List Char :=
  let cs := if cs.contains '.' then cs else cs ++ ['.', '0']
  if cs.getLast? = some '.' then cs ++ ['0'] else cs

def plain (x : Binary64) : List Char :=
  let shortest := x.shortestText
  pointed (if shortest.contains 'e' then Text.trimEnd (· == '0') (x.fixedText 17) else shortest)

/-- With a number of decimals; none at all leaves the decimal zero. -/
def fixed (decimals : Int) (x : Binary64) : List Char :=
  if decimals > 0 then x.fixedText decimals.toNat else x.fixedText 0 ++ ['.', '0']

def ofNumber (x : Binary64) (decimals : Option Int) : String :=
  String.ofList (match decimals with
    | some d => fixed d x
    | none => plain x)

/-- A literal has fewer than 2^31 decimals. -/
def checkDecimals : Option Int → Except Fault Unit
  | some d => if d < 0x80000000 then .ok () else .error (Fault.tooManyDecimals d).told
  | none => .ok ()

def ofValue (v : Value) (decimals : Option Int) : Except Fault String := do
  let x ← v.toNumber
  checkDecimals decimals
  return ofNumber x decimals

end ShaderLoom.Literal
