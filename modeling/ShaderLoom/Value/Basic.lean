/-
  ShaderLoom.Value.Basic — what a configuration file can hold.

  Whole numbers are unbounded and are not fractions: `1` and `1.0` are different values. Two
  values are the same (`same`) when they are written alike, a nan being the same as itself.
-/

import ShaderLoom.Number.Binary64
import ShaderLoom.Value.Entries

namespace ShaderLoom

inductive Value where
  | null
  | bool (b : Bool)
  | int (n : Int)
  | float (x : Binary64)
  | str (s : String)
  | list (items : List Value)
  | map (entries : List (String × Value))

instance : Inhabited Value := ⟨.null⟩

namespace Value

mutual
def same : Value → Value → Bool
  | .null, .null => true
  | .bool a, .bool b => a == b
  | .int a, .int b => a == b
  | .float a, .float b => decide (a = b)
  | .str a, .str b => a == b
  | .list a, .list b => sameItems a b
  | .map a, .map b => sameEntries a b
  | _, _ => false
termination_by structural v => v

def sameItems : List Value → List Value → Bool
  | [], [] => true
  | v :: vs, w :: ws => same v w && sameItems vs ws
  | _, _ => false
termination_by structural vs => vs

def sameEntries : List (String × Value) → List (String × Value) → Bool
  | [], [] => true
  | (k, v) :: vs, (l, w) :: ws => k == l && same v w && sameEntries vs ws
  | _, _ => false
termination_by structural vs => vs
end

/-- Nothing, zero and whatever is empty count as absent; a nan does not. -/
def isTrue : Value → Bool
  | .null => false
  | .bool b => b
  | .int n => n != 0
  | .float x => !x.isZero
  | .str s => s != ""
  | .list items => !items.isEmpty
  | .map entries => !entries.isEmpty

/-- The number that a value is, truth values counting as zero and one. -/
def extent? : Value → Option Extent
  | .bool b => some (.ofInt (if b then 1 else 0))
  | .int n => some (.ofInt n)
  | .float x => x.extent?
  | _ => none

/-- The whole number that a value equals, if there is one. -/
def wholeNumber? : Value → Option Int
  | .bool b => some (if b then 1 else 0)
  | .int n => some n
  | .float x => x.toInt?
  | _ => none

/-! ## Equality across kinds of number -/

def isNumeric : Value → Bool
  | .bool _ | .int _ | .float _ => true
  | _ => false

mutual
/-- Numbers are equal when they have one value, whatever their kind, and a nan equals nothing;
mappings are equal when they hold equal values under the same keys, in any order. -/
def equals : Value → Value → Bool
  | .null, .null => true
  | .str a, .str b => a == b
  | .list a, .list b => equalsItems a b
  | .map a, .map b => a.length == b.length && equalsEntries a b
  | a, b => a.isNumeric && b.isNumeric && a.extent?.isSome && decide (a.extent? = b.extent?)
termination_by structural v => v

def equalsItems : List Value → List Value → Bool
  | [], [] => true
  | v :: vs, w :: ws => equals v w && equalsItems vs ws
  | _, _ => false
termination_by structural vs => vs

/-- Every entry has an equal one under its key. -/
def equalsEntries : List (String × Value) → List (String × Value) → Bool
  | [], _ => true
  | (k, v) :: vs, others =>
    (match Entries.get? k others with
      | some w => equals v w
      | none => false) && equalsEntries vs others
termination_by structural vs => vs
end

/-! ## Keys -/

mutual
/-- No mapping in the value has a key twice, as in every mapping that was read or built. -/
def isKeyed : Value → Bool
  | .list items => itemsKeyed items
  | .map entries => decide (Entries.keys entries).Nodup && entriesKeyed entries
  | _ => true
termination_by structural v => v

def itemsKeyed : List Value → Bool
  | [] => true
  | v :: vs => isKeyed v && itemsKeyed vs
termination_by structural vs => vs

def entriesKeyed : List (String × Value) → Bool
  | [] => true
  | (_, v) :: vs => isKeyed v && entriesKeyed vs
termination_by structural vs => vs
end

theorem entriesKeyed_iff {entries : Entries Value} :
    entriesKeyed entries = true ↔ ∀ p ∈ entries, p.2.isKeyed = true := by
  induction entries with
  | nil => simp [entriesKeyed]
  | cons p rest ih => simp [entriesKeyed, ih]

theorem isKeyed_map {entries : Entries Value} :
    (Value.map entries).isKeyed = true ↔ (Entries.keys entries).Nodup ∧ ∀ p ∈ entries, p.2.isKeyed = true := by
  rw [isKeyed, Bool.and_eq_true, decide_eq_true_eq, entriesKeyed_iff]

/-- Values that can serve as keys of a look-up: all but lists and mappings. -/
def isKey : Value → Bool
  | .list _ | .map _ => false
  | _ => true

end Value

end ShaderLoom
