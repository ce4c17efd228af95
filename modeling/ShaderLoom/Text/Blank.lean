/-
  ShaderLoom.Text.Blank — blank characters, trimming and the null character.

  Two notions of blank are in use. A general blank (`isBlank`) is any white space of Unicode or
  one of the four information separators; it separates tokens and is trimmed from settings. The
  blanks around a number (`isNumberBlank`) are the same without the information separators.
-/

namespace ShaderLoom.Text

/-- Blanks beyond ASCII. -/
def isWideBlank (c : Char) : Bool :=
  let n := c.toNat
  n == 0x85 || n == 0xA0 || n == 0x1680 || (0x2000 ≤ n && n ≤ 0x200A) || n == 0x2028 ||
    n == 0x2029 || n == 0x202F || n == 0x205F || n == 0x3000

def isNumberBlank (c : Char) : Bool :=
  c == ' ' || (9 ≤ c.toNat && c.toNat ≤ 13) || isWideBlank c

def isBlank (c : Char) : Bool :=
  isNumberBlank c || (0x1C ≤ c.toNat && c.toNat ≤ 0x1F)

/-- Whether a text holds the null character, which has no place in the names of files and of
variables. -/
def hasNull (s : String) : Bool := s.toList.any (·.toNat == 0)

def trimStart (p : Char → Bool) (cs : List Char) : List Char := cs.dropWhile p

def trimEnd (p : Char → Bool) (cs : List Char) : List Char := (cs.reverse.dropWhile p).reverse

/-- The text without the characters of a class at its two ends. -/
def trim (p : Char → Bool) (cs : List Char) : List Char := trimEnd p (trimStart p cs)

end ShaderLoom.Text
