/-
  ShaderLoom.Number.Written — numbers as text.

  `shortestText` is the plain form of a number: the fewest digits that read back, positional
  from 10^-4 up to below 10^16 and with an exponent of at least two digits beyond, with a point
  in every positional form. `fixedText` has a given number of decimals, the exact value rounded
  half to even. Both keep the sign of a negative zero.
-/

import ShaderLoom.Number.Decimal

namespace ShaderLoom

namespace Decimal

def digitText (n : Nat) : List Char := Nat.toDigits 10 n

def zeros (n : Nat) : List Char := List.replicate n '0'

/-- The digits without the zeros at the end. -/
def significant (n : Nat) : List Char :=
  ((digitText n).reverse.dropWhile (· == '0')).reverse

/-- Significant digits with the point after the first `point` of them. -/
def positional (digits : List Char) (point : Int) : List Char :=
  match point with
  | .ofNat p =>
    if p = 0 then '0' :: '.' :: digits
    else if digits.length ≤ p then digits ++ zeros (p - digits.length) ++ ['.', '0']
    else digits.take p ++ '.' :: digits.drop p
  | .negSucc p => '0' :: '.' :: (zeros (p + 1) ++ digits)

/-- Significant digits with the point after the first and a power of ten. -/
def scientific (digits : List Char) (exponent : Int) : List Char :=
  let mantissa := match digits with
    | d :: e :: rest => d :: '.' :: e :: rest
    | short => short
  let power := digitText exponent.natAbs
  mantissa ++ 'e' :: (if exponent < 0 then '-' else '+') :: (zeros (2 - power.length) ++ power)

/-- Positional while the point stays within four zeros before the digits and sixteen places
after their start. -/
def text (d : Decimal) : List Char :=
  let point := d.exponent + digitCount d.digits
  let digits := significant d.digits
  if -4 < point ∧ point ≤ 16 then positional digits point else scientific digits (point - 1)

end Decimal

namespace Binary64

def signText (negative : Bool) : List Char := if negative then ['-'] else []

def shortestText : Binary64 → List Char
  | .nan => "nan".toList
  | .infinite negative => signText negative ++ "inf".toList
  | .finite negative p =>
    signText negative ++ (if p.val = 0 then "0.0".toList else (Decimal.shortest p).text)

/-- A whole number of units of `10^-places`, written with that many decimals. -/
def fixedDigits (n places : Nat) : List Char :=
  let whole := Decimal.digitText (n / Nat.pow 10 places)
  if places = 0 then whole
  else
    let part := Decimal.digitText (n % Nat.pow 10 places)
    whole ++ '.' :: (Decimal.zeros (places - part.length) ++ part)

def fixedText (places : Nat) : Binary64 → List Char
  | .nan => "nan".toList
  | .infinite negative => signText negative ++ "inf".toList
  | .finite negative p =>
    signText negative ++ fixedDigits (roundHalfEven (units p * Nat.pow 10 places) perOne) places

end Binary64

end ShaderLoom
