/-
  ShaderLoom.Value.Convert — values taken as numbers, as tuples, as mappings and as names.
-/

import ShaderLoom.Fault
import ShaderLoom.Number.Reading

namespace ShaderLoom

namespace Value

/-- A number of any kind, or text that writes one, as a number. -/
def toNumber : Value → Except Fault Binary64
  | .bool b => .ok (.ofRatio false (if b then 1 else 0) 1)
  | .int n => (Binary64.ofInt? n).elim (.error .integerTooLarge) .ok
  | .float x => .ok x
  | .str s => (Reading.number? s.toList).elim (.error (.notANumber s)) .ok
  | .null | .list _ | .map _ => .error .wrongKind

/-- The parts of a value that has parts: items, characters, keys. -/
def parts : Value → Except Fault (List Value)
  | .list items => .ok items
  | .str s => .ok (s.toList.map fun c => .str (String.singleton c))
  | .map entries => .ok (entries.map fun (key, _) => .str key)
  | _ => .error .wrongKind

def twoParts (v : Value) : Except Fault (Value × Value) := do
  match ← v.parts with
  | [a, b] => .ok (a, b)
  | [] => .error (.tooFewParts 2 0)
  | [_] => .error (.tooFewParts 2 1)
  | _ => .error (.tooManyParts 2)

def threeParts (v : Value) : Except Fault (Value × Value × Value) := do
  match ← v.parts with
  | [a, b, c] => .ok (a, b, c)
  | [] => .error (.tooFewParts 3 0)
  | [_] => .error (.tooFewParts 3 1)
  | [_, _] => .error (.tooFewParts 3 2)
  | _ => .error (.tooManyParts 3)

/-- Fails on a value that cannot be written out. -/
def checkPrintable (v : Value) : Except Fault Unit :=
  if v.isPrintable then .ok () else .error .unprintable

/-- The member of a closed set that a value names, by its text. -/
def named {α : Type} (find? : String → Option α) (unknown : Value → Fault) (v : Value) : Except Fault α :=
  match v with
  | .str s => (find? s).elim (.error (unknown v).told) .ok
  | _ => .error (unknown v).told

/-! ## Pairs -/

/-- Puts a value under a key that may be of any kind; equal keys are one key. -/
def putEqual (key value : Value) : List (Value × Value) → List (Value × Value)
  | [] => [(key, value)]
  | (k, v) :: rest => if k.equals key then (k, value) :: rest else (k, v) :: putEqual key value rest

/-- One item of a row of pairs. -/
def asPair (position : Nat) (item : Value) : Except Fault (Value × Value) := do
  match ← item.parts with
  | [key, value] => if key.isKey then .ok (key, value) else .error .wrongKind
  | other => .error (.notAPair position other.length)

def putPairs (position : Nat) (found : List (Value × Value)) :
    List Value → Except Fault (List (Value × Value))
  | [] => .ok found
  | item :: rest => do
    let (key, value) ← asPair position item
    putPairs (position + 1) (putEqual key value found) rest

/-- A mapping, or a row of pairs, as pairs under distinct keys. -/
def pairs : Value → Except Fault (List (Value × Value))
  | .map entries => .ok (entries.map fun (key, value) => (.str key, value))
  | v => do putPairs 0 [] (← v.parts)

/-- The same with the keys as text. -/
def entries (v : Value) : Except Fault (Entries Value) := do
  let found ← v.pairs
  return Entries.ofPairs (found.map fun (key, value) => (key.text, value))

end Value

end ShaderLoom
