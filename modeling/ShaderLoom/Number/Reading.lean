/-
  ShaderLoom.Number.Reading — numbers read from text.

  A number is written as an optional sign and then `inf`, `infinity` or `nan` in any case, or
  decimal digits with an optional point and an optional power of ten; one `_` may stand between
  two digits, any script's digits will do, and blanks around the whole are passed over. Text too
  large for a finite number reads as an infinity.
-/

import ShaderLoom.Number.Decimal
import ShaderLoom.Text.Blank
import ShaderLoom.Text.Digit

namespace ShaderLoom.Reading

open ShaderLoom.Text

/-- The number that a row of digits writes. -/
def ofDigits (digits : List Char) : Nat :=
  digits.foldl (fun n c => 10 * n + (digitValue? c).getD 0) 0

/-- Removes every `_` that stands between two digits; none when one stands elsewhere. The flag
says whether a digit came before. -/
def joinDigits : Bool → List Char → Option (List Char)
  | _, [] => some []
  | afterDigit, '_' :: c :: rest =>
    if afterDigit && isDigit c then (joinDigits true rest).map (c :: ·) else none
  | _, c :: rest =>
    if c = '_' then none else (joinDigits (isDigit c) rest).map (c :: ·)

def splitSign : List Char → Bool × List Char
  | '-' :: rest => (true, rest)
  | '+' :: rest => (false, rest)
  | cs => (false, cs)

/-- The power of ten that ends a number: nothing, or `e`, a sign if any, and digits. -/
def exponent? : List Char → Option Int
  | [] => some 0
  | c :: rest =>
    let (negative, digits) := splitSign rest
    if (c = 'e' ∨ c = 'E') ∧ digits ≠ [] ∧ digits.all isDigit then
      some (if negative then -(ofDigits digits : Int) else ofDigits digits)
    else none

/-- The digits after a point, if a point comes first, and what follows them. -/
def fraction : List Char → List Char × List Char
  | '.' :: rest => (rest.takeWhile isDigit, rest.dropWhile isDigit)
  | cs => ([], cs)

/-- An unsigned decimal with a digit on one side of its point at least. -/
def decimal? (cs : List Char) : Option Decimal :=
  let whole := cs.takeWhile isDigit
  let (part, rest) := fraction (cs.dropWhile isDigit)
  if whole = [] ∧ part = [] then none
  else (exponent? rest).map fun e => ⟨ofDigits (whole ++ part), e - part.length⟩

/-- An unsigned number with the given sign put before it. -/
def unsigned? (negative : Bool) (cs : List Char) : Option Binary64 :=
  let word := String.ofList (cs.map Char.toLower)
  if word = "inf" ∨ word = "infinity" then some (.infinite negative)
  else if word = "nan" then some .nan
  else (joinDigits false cs).bind fun joined => (decimal? joined).map (·.toBinary64 negative)

def number? (text : List Char) : Option Binary64 :=
  let (negative, rest) := splitSign (trim isNumberBlank text)
  unsigned? negative rest

/-! ## Two-digit hexadecimal channels -/

/-- The value of a hexadecimal digit; the digits below ten may be of any script. -/
def hexDigit? (c : Char) : Option Nat :=
  if 'a' ≤ c ∧ c ≤ 'f' then some (c.toNat - 87)
  else if 'A' ≤ c ∧ c ≤ 'F' then some (c.toNat - 55)
  else digitValue? c

/-- Two characters hold a hexadecimal number when both are digits, or when one is a digit and
the other a blank on either side or a sign before it. -/
def hexPair? (a b : Char) : Option Int :=
  match hexDigit? a, hexDigit? b with
  | some high, some low => some (16 * high + low)
  | none, some low =>
    if isNumberBlank a ∨ a = '+' then some low
    else if a = '-' then some (-low)
    else none
  | some digit, none => if isNumberBlank b then some digit else none
  | none, none => none

end ShaderLoom.Reading
