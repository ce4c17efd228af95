/-
  ShaderLoom.Proofs.Value.Equality — equality of values that can be keys.

  Numbers of different kinds can be equal, so equality is not identity. A key has a mark: nothing, its
  text, or where it lies among the numbers; a nan has none. What equals a key has the key's mark
  (`equals_iff`), so on keys equality is symmetric and transitive (`equals_of_common`).
-/

import ShaderLoom.Proofs.Number.Whole
import ShaderLoom.Value.Basic

namespace ShaderLoom.Value

inductive Mark where
  | nothing
  | text (s : String)
  | number (e : Extent)

def mark? : Value → Option Mark
  | .null => some .nothing
  | .str s => some (.text s)
  | .list _ | .map _ => none
  | v => v.extent?.map .number

variable {a b c : Value}

theorem mark?_numeric (h : a.isNumeric = true) : a.mark? = a.extent?.map .number := by
  cases a with
  | bool | int | float => rfl
  | _ => cases h

theorem number_of_mark {m : Mark} (h : a.isNumeric = true) (hm : a.mark? = some m) :
    ∃ e, a.extent? = some e ∧ m = .number e := by
  rw [mark?_numeric h] at hm
  obtain ⟨e, he, rfl⟩ := Option.map_eq_some_iff.mp hm
  exact ⟨e, he, rfl⟩

theorem mark_of_extent {e : Extent} (h : a.isNumeric = true) (he : a.extent? = some e) :
    a.mark? = some (.number e) := by
  rw [mark?_numeric h, he]
  rfl

theorem equals_numeric (ha : a.isNumeric = true) (hb : b.isNumeric = true) :
    a.equals b = (a.extent?.isSome && decide (a.extent? = b.extent?)) := by
  cases a with
  | bool | int | float =>
    cases b with
    | bool | int | float => rfl
    | _ => cases hb
  | _ => cases ha

/-- Numbers are equal that lie at one place. -/
theorem equals_numeric_iff (ha : a.isNumeric = true) (hb : b.isNumeric = true) :
    a.equals b = true ↔ ∃ e, a.extent? = some e ∧ b.extent? = some e := by
  rw [equals_numeric ha hb, Bool.and_eq_true, decide_eq_true_eq, Option.isSome_iff_exists]
  constructor
  · rintro ⟨⟨e, he⟩, heq⟩
    exact ⟨e, he, heq ▸ he⟩
  · rintro ⟨e, he, he'⟩
    exact ⟨⟨e, he⟩, he.trans he'.symm⟩

theorem isNumeric_of_mark {e : Extent} (h : a.mark? = some (.number e)) : a.isNumeric = true := by
  cases a with
  | bool | int | float => rfl
  | _ => cases h

theorem eq_str_of_mark {s : String} (h : a.mark? = some (.text s)) : a = .str s := by
  cases a with
  | str t =>
    cases h
    rfl
  | bool | int | float =>
    obtain ⟨e, -, he⟩ := number_of_mark rfl h
    cases he
  | _ => cases h

theorem eq_null_of_mark (h : a.mark? = some .nothing) : a = .null := by
  cases a with
  | null => rfl
  | bool | int | float =>
    obtain ⟨e, -, he⟩ := number_of_mark rfl h
    cases he
  | _ => cases h

/-- What equals a key has the key's mark. -/
theorem equals_iff (ha : a.isKey = true) : a.equals b = true ↔ ∃ m, a.mark? = some m ∧ b.mark? = some m := by
  constructor
  · intro h
    cases a with
    | list | map => cases ha
    | null =>
      cases b with
      | null => exact ⟨_, rfl, rfl⟩
      | _ => cases h
    | str s =>
      cases b with
      | str t => exact ⟨_, rfl, (eq_of_beq h) ▸ rfl⟩
      | _ => cases h
    | bool | int | float =>
      cases b with
      | bool | int | float =>
        obtain ⟨e, he, he'⟩ := (equals_numeric_iff rfl rfl).mp h
        exact ⟨.number e, mark_of_extent rfl he, mark_of_extent rfl he'⟩
      | _ => cases h
  · rintro ⟨m, hm, hb⟩
    cases m with
    | nothing =>
      rw [eq_null_of_mark hm, eq_null_of_mark hb]
      rfl
    | text s =>
      rw [eq_str_of_mark hm, eq_str_of_mark hb]
      exact beq_self_eq_true s
    | number e =>
      have hna := isNumeric_of_mark hm
      have hnb := isNumeric_of_mark hb
      obtain ⟨x, hx, hxe⟩ := number_of_mark hna hm
      obtain ⟨y, hy, hye⟩ := number_of_mark hnb hb
      cases hxe
      cases hye
      exact (equals_numeric_iff hna hnb).mpr ⟨e, hx, hy⟩

/-- Two keys that equal the same value equal each other. -/
theorem equals_of_common (ha : a.isKey = true) (hb : b.isKey = true) (hac : a.equals c = true)
    (hbc : b.equals c = true) : a.equals b = true := by
  obtain ⟨m, hm, hc⟩ := (equals_iff ha).mp hac
  obtain ⟨n, hn, hc'⟩ := (equals_iff hb).mp hbc
  cases hc.symm.trans hc'
  exact (equals_iff ha).mpr ⟨m, hm, hn⟩

theorem equals_symm (ha : a.isKey = true) (hb : b.isKey = true) (h : a.equals b = true) : b.equals a = true := by
  obtain ⟨m, hm, hn⟩ := (equals_iff ha).mp h
  exact (equals_iff hb).mpr ⟨m, hn, hm⟩

/-- What equals a whole number is that number. -/
theorem wholeNumber?_of_equals {n : Int} (h : (Value.int n).equals a = true) : a.wholeNumber? = some n := by
  obtain ⟨m, hm, ha⟩ := (equals_iff rfl).mp h
  obtain ⟨e, he, rfl⟩ := number_of_mark rfl hm
  obtain ⟨e', he', heq⟩ := number_of_mark (isNumeric_of_mark ha) ha
  cases heq
  cases he
  cases a with
  | float x => exact Binary64.toInt?_eq_some_iff.mpr he'
  | int m =>
    rw [← Extent.ofInt_inj.mp (Option.some.inj he')]
    rfl
  | bool b =>
    rw [← Extent.ofInt_inj.mp (Option.some.inj he')]
    rfl
  | _ => cases he'

theorem equals_of_wholeNumber? {n : Int} (h : a.wholeNumber? = some n) : (Value.int n).equals a = true := by
  cases a with
  | float x => exact (equals_numeric_iff rfl rfl).mpr ⟨.ofInt n, rfl, Binary64.toInt?_eq_some_iff.mp h⟩
  | int m =>
    obtain rfl : m = n := Option.some.inj h
    exact (equals_numeric_iff rfl rfl).mpr ⟨.ofInt m, rfl, rfl⟩
  | bool b =>
    obtain rfl : (if b then 1 else 0) = n := Option.some.inj h
    exact (equals_numeric_iff rfl rfl).mpr ⟨_, rfl, rfl⟩
  | _ => cases h

/-- The whole number of a value is the one that it equals. -/
theorem wholeNumber?_eq_some_iff {n : Int} : a.wholeNumber? = some n ↔ (Value.int n).equals a = true :=
  ⟨equals_of_wholeNumber?, wholeNumber?_of_equals⟩

end ShaderLoom.Value
