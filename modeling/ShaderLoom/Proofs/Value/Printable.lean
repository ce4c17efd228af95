/-
  ShaderLoom.Proofs.Value.Printable — values that can be written out.

  A whole number can be written out when it lies below 10^4300 in size (`isPrintable_int_iff`), a
  list or a mapping when all it holds can be. `longNumber` is the least that cannot. A value that can be
  written out is told of and logged as ever; of any other there is no form in words (`inspect?`),
  and a fault that would show it comes out as another (`told_cases`).
-/

import ShaderLoom.Proofs.Number.Rounding
import ShaderLoom.Value.Convert

namespace ShaderLoom

namespace Value

variable {v : Value} {items : List Value} {entries : Entries Value} {s : String} {b : Bool} {x : Binary64}

@[simp] theorem isPrintable_null : isPrintable .null = true := rfl

@[simp] theorem isPrintable_bool : (Value.bool b).isPrintable = true := rfl

@[simp] theorem isPrintable_float : (Value.float x).isPrintable = true := rfl

@[simp] theorem isPrintable_str : (Value.str s).isPrintable = true := rfl

theorem isPrintable_int_iff {n : Int} : (Value.int n).isPrintable = true ↔ n.natAbs < 10 ^ mostDigits := by
  have hpos : 0 < mostDigits := by decide
  rw [isPrintable, decide_eq_true_eq]
  exact Decimal.digitCount_le_iff hpos

theorem itemsPrintable_iff : itemsPrintable items = true ↔ ∀ v ∈ items, v.isPrintable = true := by
  induction items with
  | nil => simp [itemsPrintable]
  | cons v vs ih => simp [itemsPrintable, ih]

theorem entriesPrintable_iff : entriesPrintable entries = true ↔ ∀ p ∈ entries, p.2.isPrintable = true := by
  induction entries with
  | nil => simp [entriesPrintable]
  | cons p rest ih => simp [entriesPrintable, ih]

theorem isPrintable_map_iff : (Value.map entries).isPrintable = true ↔ ∀ p ∈ entries, p.2.isPrintable = true :=
  entriesPrintable_iff

theorem inspect?_eq_none_iff : v.inspect? = none ↔ v.isPrintable = false := by
  cases h : v.isPrintable <;> simp [inspect?, h]

theorem checkPrintable_eq_ok_iff : v.checkPrintable = .ok () ↔ v.isPrintable = true := by
  cases h : v.isPrintable <;> simp [checkPrintable, h]

theorem checkPrintable_of_not (h : v.isPrintable = false) : v.checkPrintable = .error .unprintable := by
  simp [checkPrintable, h]

/-! ## A number past the limit -/

/-- The least whole number that is too long to be written out: a one and 4300 zeros. -/
def longNumber : Int := (10 ^ mostDigits : Nat)

theorem longNumber_unprintable : (Value.int longNumber).isPrintable = false := by
  have hsize : longNumber.natAbs = 10 ^ mostDigits := Int.natAbs_natCast _
  exact Bool.eq_false_iff.mpr fun h => Nat.ne_of_lt (isPrintable_int_iff.mp h) hsize

end Value

namespace Fault

variable {fault : Fault}

theorem told_of_printable (h : ∀ v ∈ fault.shown, v.isPrintable = true) : fault.told = fault :=
  if_pos (List.all_eq_true.mpr h)

theorem told_of_unprintable {v : Value} (hv : v ∈ fault.shown) (h : v.isPrintable = false) : fault.told = .unprintable := by
  refine if_neg fun hall => ?_
  rw [List.all_eq_true.mp hall v hv] at h
  cases h

theorem told_cases (fault : Fault) :
    (fault.told = fault ∧ ∀ v ∈ fault.shown, v.isPrintable = true) ∨
      (fault.told = .unprintable ∧ ∃ v ∈ fault.shown, v.isPrintable = false) := by
  by_cases h : ∀ v ∈ fault.shown, v.isPrintable = true
  · exact Or.inl ⟨told_of_printable h, h⟩
  · obtain ⟨v, hv, hlong⟩ : ∃ v ∈ fault.shown, v.isPrintable = false := by simpa using h
    exact Or.inr ⟨told_of_unprintable hv hlong, v, hv, hlong⟩

end Fault

end ShaderLoom
