/-
  ShaderLoom.Json.Reading — values read from lines of JSON.

  Beyond the standard the words `NaN`, `Infinity` and `-Infinity` are numbers. A number with
  neither point nor exponent is whole and has `mostDigits` digits at most. A repeated key keeps
  its first place and takes its last value. The first fault from the left is the one told. The
  readers of values take an allowance of steps; `value` grants more than a text of its length
  can use.
-/

import ShaderLoom.Fault
import ShaderLoom.Number.Reading

namespace ShaderLoom.Json

def isSpace (c : Char) : Bool := c == ' ' || c == '\t' || c == '\n' || c == '\r'

def skipSpace (cs : List Char) : List Char := cs.dropWhile isSpace

/-! ## Text -/

def hexValue? (c : Char) : Option Nat :=
  if '0' ≤ c ∧ c ≤ '9' then some (c.toNat - 48)
  else if 'a' ≤ c ∧ c ≤ 'f' then some (c.toNat - 87)
  else if 'A' ≤ c ∧ c ≤ 'F' then some (c.toNat - 55)
  else none

def unit? (a b c d : Char) : Option Nat := do
  return 4096 * (← hexValue? a) + 256 * (← hexValue? b) + 16 * (← hexValue? c) + (← hexValue? d)

/-- The character of a unit outside the surrogates. -/
def single? (n : Nat) : Option Char :=
  if 0xD800 ≤ n ∧ n < 0xE000 then none else some (Char.ofNat n)

/-- The character of a surrogate pair. -/
def paired? (high low : Nat) : Option Char :=
  if 0xD800 ≤ high ∧ high < 0xDC00 ∧ 0xDC00 ≤ low ∧ low < 0xE000 then
    some (Char.ofNat (0x10000 + 0x400 * (high - 0xD800) + (low - 0xDC00)))
  else none

def shortEscape? : Char → Option Char
  | '"' => some '"'
  | '\\' => some '\\'
  | '/' => some '/'
  | 'b' => some (Char.ofNat 8)
  | 'f' => some (Char.ofNat 12)
  | 'n' => some '\n'
  | 'r' => some '\r'
  | 't' => some '\t'
  | _ => none

/-- The characters up to the closing quote, and what follows it. -/
def text? : List Char → Option (List Char × List Char)
  | [] => none
  | '"' :: rest => some ([], rest)
  | '\\' :: 'u' :: a :: b :: c :: d :: '\\' :: 'u' :: e :: f :: g :: h :: rest =>
    match unit? a b c d with
    | none => none
    | some high =>
      match single? high with
      | some x => (text? ('\\' :: 'u' :: e :: f :: g :: h :: rest)).map fun (cs, r) => (x :: cs, r)
      | none => match (unit? e f g h).bind (paired? high) with
        | some x => (text? rest).map fun (cs, r) => (x :: cs, r)
        | none => none
  | '\\' :: 'u' :: a :: b :: c :: d :: rest =>
    match (unit? a b c d).bind single? with
    | some x => (text? rest).map fun (cs, r) => (x :: cs, r)
    | none => none
  | '\\' :: c :: rest =>
    match shortEscape? c with
    | some x => (text? rest).map fun (cs, r) => (x :: cs, r)
    | none => none
  | c :: rest => if c < ' ' ∨ c = '\\' then none else (text? rest).map fun (cs, r) => (c :: cs, r)

/-! ## Numbers -/

def isPlainDigit (c : Char) : Bool := '0' ≤ c && c ≤ '9'

/-- The digits before the point: a zero alone, or digits that do not start with one. -/
def wholeDigits : List Char → List Char
  | '0' :: _ => ['0']
  | cs => cs.takeWhile isPlainDigit

def fractionDigits : List Char → List Char
  | '.' :: rest => rest.takeWhile isPlainDigit
  | _ => []

/-- A power of ten at the start of a text: its sign, its digits and what follows. -/
def power : List Char → Option (Bool × List Char × List Char)
  | c :: rest =>
    let (negative, digits) := Reading.splitSign rest
    if (c = 'e' ∨ c = 'E') ∧ digits.takeWhile isPlainDigit ≠ [] then
      some (negative, digits.takeWhile isPlainDigit, digits.dropWhile isPlainDigit)
    else none
  | [] => none

/-- A whole number of a sign and digits. -/
def whole (negative : Bool) (digits : List Char) : Except Fault Value :=
  let n := Reading.ofDigits digits
  if digits.length ≤ mostDigits then .ok (.int (if negative then -(n : Int) else n))
  else .error (.tooManyDigits digits.length)

/-- A number after its sign, and what follows it. -/
def number (negative : Bool) (cs : List Char) : Except Fault (Value × List Char) :=
  let digits := wholeDigits cs
  let afterDigits := cs.drop digits.length
  let part := fractionDigits afterDigits
  let afterPart := if part = [] then afterDigits else afterDigits.drop (part.length + 1)
  let fractional (e : Int) : Value :=
    .float ((Decimal.mk (Reading.ofDigits (digits ++ part)) (e - part.length)).toBinary64 negative)
  if digits = [] then .error .unreadableRecord
  else
    match power afterPart with
    | some (down, p, rest) =>
      .ok (fractional (if down then -(Reading.ofDigits p : Int) else Reading.ofDigits p), rest)
    | none =>
      if part = [] then (whole negative digits).map fun v => (v, afterPart)
      else .ok (fractional 0, afterPart)

/-! ## Values -/

/-- A word or a number at the start of a text. -/
def scalar : List Char → Except Fault (Value × List Char)
  | 'n' :: 'u' :: 'l' :: 'l' :: rest => .ok (.null, rest)
  | 't' :: 'r' :: 'u' :: 'e' :: rest => .ok (.bool true, rest)
  | 'f' :: 'a' :: 'l' :: 's' :: 'e' :: rest => .ok (.bool false, rest)
  | 'N' :: 'a' :: 'N' :: rest => .ok (.float .nan, rest)
  | 'I' :: 'n' :: 'f' :: 'i' :: 'n' :: 'i' :: 't' :: 'y' :: rest =>
    .ok (.float (.infinite false), rest)
  | '-' :: 'I' :: 'n' :: 'f' :: 'i' :: 'n' :: 'i' :: 't' :: 'y' :: rest =>
    .ok (.float (.infinite true), rest)
  | '-' :: rest => number true rest
  | cs => number false cs

mutual
def valueWithin : Nat → List Char → Except Fault (Value × List Char)
  | 0, _ => .error .unreadableRecord
  | steps + 1, cs =>
    match cs with
    | '"' :: rest =>
      match text? rest with
      | some (s, r) => .ok (.str (String.ofList s), r)
      | none => .error .unreadableRecord
    | '[' :: rest =>
      match skipSpace rest with
      | ']' :: r => .ok (.list [], r)
      | r => (itemsWithin steps r).map fun (items, r) => (.list items, r)
    | '{' :: rest =>
      match skipSpace rest with
      | '}' :: r => .ok (.map [], r)
      | r => (membersWithin steps r).map fun (members, r) => (.map (Entries.ofPairs members), r)
    | _ => scalar cs

/-- Items up to the closing bracket. -/
def itemsWithin : Nat → List Char → Except Fault (List Value × List Char)
  | 0, _ => .error .unreadableRecord
  | steps + 1, cs =>
    match valueWithin steps cs with
    | .error fault => .error fault
    | .ok (v, rest) =>
      match skipSpace rest with
      | ']' :: r => .ok ([v], r)
      | ',' :: r => (itemsWithin steps (skipSpace r)).map fun (vs, r) => (v :: vs, r)
      | _ => .error .unreadableRecord

/-- Members up to the closing brace. -/
def membersWithin : Nat → List Char → Except Fault (List (String × Value) × List Char)
  | steps + 1, '"' :: cs =>
    match text? cs with
    | none => .error .unreadableRecord
    | some (key, rest) =>
      match skipSpace rest with
      | ':' :: r =>
        match valueWithin steps (skipSpace r) with
        | .error fault => .error fault
        | .ok (v, rest) =>
          match skipSpace rest with
          | '}' :: r => .ok ([(String.ofList key, v)], r)
          | ',' :: r =>
            (membersWithin steps (skipSpace r)).map fun (vs, r) => ((String.ofList key, v) :: vs, r)
          | _ => .error .unreadableRecord
      | _ => .error .unreadableRecord
  | _, _ => .error .unreadableRecord
end

/-- The value that a whole text writes. -/
def value (cs : List Char) : Except Fault Value :=
  match valueWithin (2 * cs.length + 2) (skipSpace cs) with
  | .error fault => .error fault
  | .ok (v, rest) => if skipSpace rest = [] then .ok v else .error .unreadableRecord

end ShaderLoom.Json
