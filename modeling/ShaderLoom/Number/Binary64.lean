/-
  ShaderLoom.Number.Binary64 — the numbers a shader parameter can hold.

  A finite number is a sign and a position: the finite magnitudes of the binary64 format,
  from zero upwards, are numbered 0, 1, 2, …, and `units` says what a position is worth,
  counted in units of 2^-1074 (`perOne` of them make one). So the order of magnitudes is the
  order of positions and every finite number is an exact integer of one fixed unit. The
  magnitudes that are equally far apart stand in rows of `rowLength`; from the third row on
  the gaps double from row to row.

  Nothing is computed with machine floats: the only arithmetic a shader needs is reading,
  rounding a quotient to the nearest number (`ofRatio`), comparing (`Extent`) and printing.
-/

namespace ShaderLoom

namespace Binary64

/-- The number of magnitudes between a power of two and the next. -/
def rowLength : Nat := Nat.pow 2 52

/-- The number of finite magnitudes. -/
def span : Nat := 0x7FF * rowLength

/-- The units that make one. -/
def perOne : Nat := Nat.pow 2 1074

end Binary64

inductive Binary64 where
  | nan
  | infinite (negative : Bool)
  | finite (negative : Bool) (position : Fin Binary64.span)
  deriving DecidableEq

/-- A number on the extended line; finite ones are counted in units of 2^-1074. -/
inductive Extent where
  | below
  | at (units : Int)
  | above
  deriving DecidableEq

namespace Extent

def lt : Extent → Extent → Bool
  | .at a, .at b => decide (a < b)
  | .below, .at _ | .below, .above | .at _, .above => true
  | _, _ => false

def ofInt (n : Int) : Extent := .at (n * Binary64.perOne)

end Extent

/-- The quotient rounded to a whole number, a half going to the even neighbour. -/
def roundHalfEven (n d : Nat) : Nat :=
  let q := n / d
  let r := n % d
  if 2 * r < d then q
  else if d < 2 * r then q + 1
  else q + q % 2

namespace Binary64

/-! ## Positions -/

/-- What the magnitude at a position is worth, in units of 2^-1074. -/
def units (position : Nat) : Nat :=
  if position < 2 * rowLength then position
  else (rowLength + position % rowLength) * Nat.pow 2 (position / rowLength - 1)

/-- The position nearest to `n / d`, a tie going to the even position. It is at least `span`
when the quotient lies too far up for a finite number. -/
def positionOfRatio (n d : Nat) : Nat :=
  let scaled := n * perOne
  let shift := (scaled / d).log2 - 52
  shift * rowLength + roundHalfEven scaled (d * Nat.pow 2 shift)

/-! ## Building numbers -/

def zero : Binary64 := .finite false ⟨0, by decide⟩

def ofRatio (negative : Bool) (n d : Nat) : Binary64 :=
  let position := positionOfRatio n d
  if h : position < span then .finite negative ⟨position, h⟩ else .infinite negative

/-- A number, unless it lies beyond the finite ones. -/
def finite? : Binary64 → Option Binary64
  | .finite negative position => some (.finite negative position)
  | _ => none

/-- The number nearest to an integer; none when it lies beyond the finite numbers. -/
def ofInt? (n : Int) : Option Binary64 := (ofRatio (decide (n < 0)) n.natAbs 1).finite?

def one : Binary64 := ofRatio false 1 1

/-! ## Asking numbers -/

/-- Where a number lies; nan lies nowhere. -/
def extent? : Binary64 → Option Extent
  | .nan => none
  | .infinite true => some .below
  | .infinite false => some .above
  | .finite true p => some (.at (-(units p : Int)))
  | .finite false p => some (.at (units p))

def isZero : Binary64 → Bool
  | .finite _ p => p.val == 0
  | _ => false

/-- The whole number that a number is, if it is one. -/
def toInt? : Binary64 → Option Int
  | .finite negative p =>
    if units p % perOne = 0 then
      let magnitude : Nat := units p / perOne
      some (if negative then -(magnitude : Int) else magnitude)
    else none
  | _ => none

end Binary64

end ShaderLoom
