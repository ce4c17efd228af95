/-
  ShaderLoom.Json.Written — values as lines of JSON.

  A line is plain ASCII: any other character is written as its UTF-16 units in hexadecimal. Keys
  stand in their order at every level, so values that differ only in the order of keys have one
  line. Numbers are in their plain form, and nan and the infinities have words of their own.
-/

import ShaderLoom.Value.Display

namespace ShaderLoom.Json

open ShaderLoom.Text

def unitText (n : Nat) : List Char := '\\' :: 'u' :: hexText 4 n

/-- The UTF-16 units of a character, escaped. -/
def unitsText (c : Char) : List Char :=
  let n := c.toNat
  if n < 0x10000 then unitText n
  else unitText (0xD800 + (n - 0x10000) / 0x400) ++ unitText (0xDC00 + (n - 0x10000) % 0x400)

def escapedChar (c : Char) : List Char :=
  if c = '"' ∨ c = '\\' then ['\\', c]
  else if c = '\n' then ['\\', 'n']
  else if c = '\r' then ['\\', 'r']
  else if c = '\t' then ['\\', 't']
  else if c.toNat = 8 then ['\\', 'b']
  else if c.toNat = 12 then ['\\', 'f']
  else if ' ' ≤ c ∧ c ≤ '~' then [c]
  else unitsText c

def textLine (s : String) : String :=
  String.ofList ('"' :: (s.toList.flatMap escapedChar ++ ['"']))

def numberLine : Binary64 → String
  | .nan => "NaN"
  | .infinite true => "-Infinity"
  | .infinite false => "Infinity"
  | x => x.text

mutual
def line : Value → String
  | .null => "null"
  | .bool b => if b then "true" else "false"
  | .int n => intText n
  | .float x => numberLine x
  | .str s => textLine s
  | .list items => "[" ++ ", ".intercalate (itemLines items) ++ "]"
  | .map entries =>
    let members := Entries.sorted (memberLines entries)
    "\x7b" ++ ", ".intercalate (members.map fun (key, v) => textLine key ++ ": " ++ v) ++ "\x7d"
termination_by structural v => v

def itemLines : List Value → List String
  | [] => []
  | v :: vs => line v :: itemLines vs
termination_by structural vs => vs

def memberLines : List (String × Value) → List (String × String)
  | [] => []
  | (key, v) :: vs => (key, line v) :: memberLines vs
termination_by structural vs => vs
end

end ShaderLoom.Json
