/-
  ShaderLoom.Text.SnakeCase — key spelling.

  A key written with capitals, `fallbackColor`, names the same field as the key with small
  letters and underscores, `fallback_color`: every capital becomes an underscore and its small
  form, and underscores at the front are dropped.
-/

import ShaderLoom.Text.LetterCase

namespace ShaderLoom.Text

def respell (c : Char) : List Char := if isCapital c then '_' :: small c else [c]

def snakeChars (cs : List Char) : List Char := (cs.flatMap respell).dropWhile (· == '_')

def snakeCase (key : String) : String := String.ofList (snakeChars key.toList)

end ShaderLoom.Text
