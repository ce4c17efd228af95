/-
  ShaderLoom.Proofs.Number.Whole — whole numbers among the numbers.

  A number is whole exactly when it lies where an integer lies (`toInt?_eq_some_iff`). The number
  nearest to an integer above zero lies above zero (`exists_units_of_ofInt?`).
-/

import ShaderLoom.Number.Binary64

namespace ShaderLoom

open Binary64

theorem perOne_pos : 0 < perOne := by decide +kernel

namespace Extent

theorem ofInt_inj {a b : Int} : ofInt a = ofInt b ↔ a = b := by
  have hpos : (perOne : Int) ≠ 0 := by
    have := perOne_pos
    omega
  constructor
  · intro h
    exact Int.eq_of_mul_eq_mul_right hpos (Extent.at.inj h)
  · intro h
    rw [h]

theorem ofInt_lt {a b : Int} : (ofInt a).lt (ofInt b) = true ↔ a < b := by
  have hpos : (0 : Int) < perOne := by
    have := perOne_pos
    omega
  have h : a * perOne < b * perOne ↔ a < b := Int.mul_lt_mul_right hpos
  exact decide_eq_true_iff.trans h

theorem at_lt_ofInt_zero {u : Int} : (Extent.at u).lt (ofInt 0) = true ↔ u < 0 := by
  rw [ofInt, Int.zero_mul]
  exact decide_eq_true_iff

end Extent

namespace Binary64

theorem units_pos {p : Nat} (h : 0 < p) : 0 < units p := by
  unfold units
  split
  · exact h
  · exact Nat.mul_pos (Nat.add_pos_left (by decide) _) (Nat.pow_pos (by decide))

/-- The units of a whole number come in ones. -/
theorem mod_div_iff {u d : Nat} (hd : 0 < d) {n : Int} :
    u % d = 0 ∧ ((u / d : Nat) : Int) = n ↔ (u : Int) = n * d := by
  constructor
  · rintro ⟨hmod, rfl⟩
    rw [← Int.natCast_mul, Nat.div_mul_cancel (Nat.dvd_of_mod_eq_zero hmod)]
  · intro h
    have hn : 0 ≤ n := Int.nonneg_of_mul_nonneg_left (h ▸ Int.natCast_nonneg u) (by omega)
    obtain ⟨m, rfl⟩ := Int.eq_ofNat_of_zero_le hn
    rw [← Int.natCast_mul, Int.natCast_inj] at h
    rw [h]
    exact ⟨Nat.mul_mod_left _ _, by rw [Nat.mul_div_cancel _ hd]⟩

theorem toInt?_eq_some_iff {x : Binary64} {n : Int} :
    x.toInt? = some n ↔ x.extent? = some (.ofInt n) := by
  cases x with
  | nan => exact iff_of_false nofun nofun
  | infinite negative => cases negative <;> exact iff_of_false nofun nofun
  | finite negative p =>
    have hwhole := fun n => mod_div_iff (u := units p) perOne_pos (n := n)
    cases negative with
    | false =>
      simp only [toInt?, extent?, Extent.ofInt, Option.some.injEq, Extent.at.injEq, Bool.false_eq_true,
        if_false, Option.ite_none_right_eq_some]
      exact hwhole n
    | true =>
      simp only [toInt?, extent?, Extent.ofInt, Option.some.injEq, Extent.at.injEq, if_true,
        Option.ite_none_right_eq_some]
      have := hwhole (-n)
      rw [Int.neg_mul] at this
      omega

/-! ## Integers as numbers -/

theorem extent?_zero : zero.extent? = some (.ofInt 0) := by
  rw [Extent.ofInt, Int.zero_mul]
  rfl

theorem extent?_one : one.extent? = some (.ofInt 1) := by decide +kernel

theorem ofInt?_zero : ofInt? 0 = some zero := by decide +kernel

theorem ofInt?_one : ofInt? 1 = some one := by decide +kernel

theorem log2_perOne : perOne.log2 = 1074 := by decide +kernel

/-- A number of ones is so many units that it lies beyond the first row. -/
theorem positionOfRatio_pos {n : Nat} (h : 0 < n) : 0 < positionOfRatio n 1 := by
  have hone : perOne ≠ 0 := Nat.ne_of_gt perOne_pos
  have hscaled : n * perOne ≠ 0 := Nat.mul_ne_zero (by omega) hone
  have hlog : perOne.log2 ≤ (n * perOne / 1).log2 := by
    rw [Nat.div_one, Nat.le_log2 hscaled]
    exact Nat.le_trans (Nat.log2_self_le hone) (Nat.le_mul_of_pos_left _ h)
  have hshift : 0 < (n * perOne / 1).log2 - 52 := by
    rw [log2_perOne] at hlog
    omega
  exact Nat.add_pos_left (Nat.mul_pos hshift (by decide)) _

theorem ofRatio_eq_finite {n d : Nat} {b negative : Bool} {p : Fin span}
    (h : ofRatio b n d = .finite negative p) : negative = b ∧ p.val = positionOfRatio n d := by
  rw [ofRatio] at h
  split at h
  · cases h
    exact ⟨rfl, rfl⟩
  · cases h

theorem finite?_eq_some {x y : Binary64} (h : x.finite? = some y) : ∃ negative p, y = .finite negative p ∧ x = y := by
  cases x with
  | finite negative p =>
    cases h
    exact ⟨_, _, rfl, rfl⟩
  | nan => cases h
  | infinite negative => cases h

theorem ofInt?_eq_some {n : Int} {x : Binary64} (h : ofInt? n = some x) :
    ∃ p : Fin span, x = .finite (decide (n < 0)) p ∧ p.val = positionOfRatio n.natAbs 1 := by
  obtain ⟨negative, p, rfl, hratio⟩ := finite?_eq_some h
  obtain ⟨rfl, hp⟩ := ofRatio_eq_finite hratio
  exact ⟨p, rfl, hp⟩

/-- The number nearest to an integer above zero lies above zero. -/
theorem exists_units_of_ofInt? {n : Int} {x : Binary64} (hn : 0 < n) (hx : ofInt? n = some x) :
    ∃ u : Nat, 0 < u ∧ x.extent? = some (.at u) := by
  obtain ⟨p, hp, hposition⟩ := ofInt?_eq_some hx
  have hpos : 0 < p.val := hposition ▸ positionOfRatio_pos (Int.natAbs_pos.mpr (Int.ne_of_gt hn))
  rw [hp, decide_eq_false (Int.not_lt.mpr (Int.le_of_lt hn))]
  exact ⟨_, units_pos hpos, rfl⟩

end Binary64

end ShaderLoom
