/-
  ShaderLoom.Text.Quoted — text in quotes, as messages show it.

  The quotes are single unless the text has a single quote and no double one. The quote in use,
  the backslash, and tabs and line ends are escaped with a backslash; any other character that
  does not print is written as its code point in two, four or eight hexadecimal digits.
-/

import ShaderLoom.Text.Printable

namespace ShaderLoom.Text

/-- A number in hexadecimal, padded with zeros to a width. -/
def hexText (width n : Nat) : List Char :=
  let digits := Nat.toDigits 16 n
  List.replicate (width - digits.length) '0' ++ digits

def quoteOf (cs : List Char) : Char :=
  if cs.contains '\'' && !cs.contains '"' then '"' else '\''

def escaped (quote c : Char) : List Char :=
  if c = quote ∨ c = '\\' then ['\\', c]
  else if c = '\t' then ['\\', 't']
  else if c = '\n' then ['\\', 'n']
  else if c = '\r' then ['\\', 'r']
  else if isPrintable c then [c]
  else if c.toNat < 0x100 then '\\' :: 'x' :: hexText 2 c.toNat
  else if c.toNat < 0x10000 then '\\' :: 'u' :: hexText 4 c.toNat
  else '\\' :: 'U' :: hexText 8 c.toNat

def quotedChars (cs : List Char) : List Char :=
  let quote := quoteOf cs
  quote :: (cs.flatMap (escaped quote) ++ [quote])

def quoted (s : String) : String := String.ofList (quotedChars s.toList)

end ShaderLoom.Text
