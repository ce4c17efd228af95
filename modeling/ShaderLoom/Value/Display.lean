/-
  ShaderLoom.Value.Display — values as text.

  `inspect` is the form shown in messages, with text in quotes; `text` is the same with text
  itself left bare. A whole number of more than `mostDigits` digits is not written out, so a value
  that holds one has neither form (`isPrintable`, `inspect?`).
-/

import ShaderLoom.Number.Written
import ShaderLoom.Text.Quoted
import ShaderLoom.Value.Basic

namespace ShaderLoom

/-- Whole numbers with more digits are neither written out nor read. -/
def mostDigits : Nat := 4300

/-- The digits of a whole number behind its sign, however many. -/
def intText (n : Int) : String :=
  String.ofList ((if n < 0 then ['-'] else []) ++ Decimal.digitText n.natAbs)

def Binary64.text (x : Binary64) : String := String.ofList x.shortestText

namespace Value

mutual
def inspect : Value → String
  | .null => "None"
  | .bool b => if b then "True" else "False"
  | .int n => intText n
  | .float x => x.text
  | .str s => Text.quoted s
  | .list items => "[" ++ ", ".intercalate (inspectItems items) ++ "]"
  | .map entries => "\x7b" ++ ", ".intercalate (inspectEntries entries) ++ "\x7d"
termination_by structural v => v

def inspectItems : List Value → List String
  | [] => []
  | v :: vs => inspect v :: inspectItems vs
termination_by structural vs => vs

def inspectEntries : List (String × Value) → List String
  | [] => []
  | (k, v) :: vs => (Text.quoted k ++ ": " ++ inspect v) :: inspectEntries vs
termination_by structural vs => vs
end

def text : Value → String
  | .str s => s
  | v => v.inspect

/-! ## Values that can be written out -/

mutual
/-- Every whole number in the value has at most `mostDigits` digits. -/
def isPrintable : Value → Bool
  | .int n => decide ((Decimal.digitText n.natAbs).length ≤ mostDigits)
  | .list items => itemsPrintable items
  | .map entries => entriesPrintable entries
  | _ => true
termination_by structural v => v

def itemsPrintable : List Value → Bool
  | [] => true
  | v :: vs => isPrintable v && itemsPrintable vs
termination_by structural vs => vs

def entriesPrintable : List (String × Value) → Bool
  | [] => true
  | (_, v) :: vs => isPrintable v && entriesPrintable vs
termination_by structural vs => vs
end

def inspect? (v : Value) : Option String := if v.isPrintable then some v.inspect else none

end Value

end ShaderLoom
