/-
  ShaderLoom.Number.Decimal — decimals with a power of ten, and the shortest one that reads
  back as a given number.

  `Decimal.toBinary64` rounds a decimal to the nearest number. `Decimal.shortest` goes the
  other way: of the decimals that read back as the number it takes one with the fewest digits,
  and of those the nearest. It tests the two neighbours of the exact value on the grids of 1,
  2, …, 17 digits; the exact value itself, which always reads back, stands behind them.
-/

import ShaderLoom.Number.Binary64

namespace ShaderLoom

/-- The number `digits · 10^exponent`. -/
structure Decimal where
  digits : Nat
  exponent : Int
  deriving DecidableEq

namespace Decimal

/-- How many decimal digits a number is written with. -/
def digitCount (n : Nat) : Nat := (Nat.toDigits 10 n).length

/-! ## From decimals to numbers -/

/-- The nearest number. A decimal from 10^310 up is past every finite number and one below
10^-330 is nearer to zero than to any other, so their powers of ten are not computed. -/
def toBinary64 (negative : Bool) (d : Decimal) : Binary64 :=
  let top := d.exponent + digitCount d.digits
  if d.digits = 0 then .ofRatio negative 0 1
  else if top > 310 then .infinite negative
  else if top < -330 then .ofRatio negative 0 1
  else match d.exponent with
    | .ofNat e => .ofRatio negative (d.digits * Nat.pow 10 e) 1
    | .negSucc e => .ofRatio negative d.digits (Nat.pow 10 (e + 1))

/-! ## From numbers to decimals -/

/-- The exact value of a position: `units · 2^-1074` is `units · 5^1074 · 10^-1074`. -/
def exact (position : Nat) : Decimal := ⟨Binary64.units position * Nat.pow 5 1074, -1074⟩

/-- The least power of ten above the value of a position other than zero. The smallest such
value times 10^340 is still above one, so the whole part of the product has the digits to
count. -/
def magnitude (position : Nat) : Int :=
  (digitCount (Binary64.units position * Nat.pow 10 340 / Binary64.perOne) : Int) - 340

/-- The two multiples of `10^exponent` around the value of a position, the nearer one first;
of two equally near the one with an even last digit. -/
def neighbours (position : Nat) (exponent : Int) : List Decimal :=
  let (n, d) := match exponent with
    | .ofNat e => (Binary64.units position, Binary64.perOne * Nat.pow 10 e)
    | .negSucc e => (Binary64.units position * Nat.pow 10 (e + 1), Binary64.perOne)
  let low := n / d
  if roundHalfEven n d = low then [⟨low, exponent⟩, ⟨low + 1, exponent⟩]
  else [⟨low + 1, exponent⟩, ⟨low, exponent⟩]

def readsBack (position : Nat) (d : Decimal) : Bool :=
  match d.toBinary64 false with
  | .finite _ p => p.val == position
  | _ => false

/-- The first neighbour that reads back, on grids of ever more digits. -/
def shortest (position : Nat) : Decimal :=
  let top := magnitude position
  let found := (List.range 17).findSome? fun (i : Nat) =>
    (neighbours position (top - (i + 1 : Nat))).find? (readsBack position)
  found.getD (exact position)

end Decimal

end ShaderLoom
