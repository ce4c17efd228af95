/-
  ShaderLoom.Proofs.Number.Shortest — the shortest decimal of a number reads back as it.

  What a position is worth rounds to that position (`position_of_units`), so the exact decimal reads
  back (`toBinary64_exact`). It stands behind all shorter ones, and those are only taken when they
  read back, so whatever decimal is found reads back (`toBinary64_shortest`).
-/

import ShaderLoom.Proofs.Number.Rounding

namespace ShaderLoom

open Binary64

theorem roundHalfEven_one (n : Nat) : roundHalfEven n 1 = n := by
  rw [roundHalfEven, Nat.mod_one, if_pos (by decide), Nat.div_one]

/-- A whole multiple is rounded to itself. -/
theorem roundHalfEven_self (n : Nat) {d : Nat} (hd : 0 < d) : roundHalfEven (n * d) d = n := by
  have := roundHalfEven_mul n 1 hd
  rwa [Nat.one_mul, roundHalfEven_one] at this

namespace Binary64

theorem rowLength_eq : rowLength = 2 ^ 52 := rfl

/-- The units of a position lie in its row, and rounding to the row leads back to the position. -/
theorem position_of_units (p : Nat) :
    ((units p).log2 - 52) * rowLength + roundHalfEven (units p) (2 ^ ((units p).log2 - 52)) = p := by
  by_cases hp : p < 2 * rowLength
  · have hunits : units p = p := if_pos hp
    have hlog : p.log2 - 52 = 0 := by
      rcases Nat.eq_zero_or_pos p with rfl | hpos
      · decide
      · have : p.log2 < 53 := (Nat.log2_lt (Nat.ne_of_gt hpos)).mpr (by rw [rowLength_eq] at hp; omega)
        omega
    rw [hunits, hlog, Nat.zero_mul, Nat.zero_add, Nat.pow_zero, roundHalfEven_one]
  · have hunits : units p = (rowLength + p % rowLength) * 2 ^ (p / rowLength - 1) := if_neg hp
    have hrow : 0 < rowLength := by decide
    have hmod : p % rowLength < rowLength := Nat.mod_lt _ hrow
    have hdiv : 2 ≤ p / rowLength := (Nat.le_div_iff_mul_le hrow).mpr (Nat.le_of_not_lt hp)
    have hlog : (units p).log2 = 52 + (p / rowLength - 1) := by
      have hne : units p ≠ 0 := Nat.ne_of_gt (units_pos (by omega))
      have hpow : 0 < 2 ^ (p / rowLength - 1) := Nat.pow_pos (by decide)
      rw [Nat.log2_eq_iff hne, hunits, Nat.pow_add, Nat.add_right_comm, Nat.pow_add]
      rw [rowLength_eq] at hmod ⊢
      exact ⟨Nat.mul_le_mul_right _ (by omega), (Nat.mul_lt_mul_right hpow).mpr (by omega)⟩
    rw [hlog, Nat.add_sub_cancel_left, hunits, roundHalfEven_self _ (Nat.pow_pos (by decide)), ← Nat.add_assoc,
      ← Nat.succ_mul]
    have hsucc : (p / rowLength - 1).succ = p / rowLength := by omega
    rw [hsucc, Nat.mul_comm]
    exact Nat.div_add_mod p rowLength

/-- A quotient that is worth a position rounds to it. -/
theorem positionOfRatio_of_units {n d p : Nat} (hd : 0 < d) (h : n * perOne = units p * d) :
    positionOfRatio n d = p := by
  have hround : roundHalfEven (units p * d) (d * 2 ^ ((units p).log2 - 52)) =
      roundHalfEven (units p) (2 ^ ((units p).log2 - 52)) := by
    rw [Nat.mul_comm d, roundHalfEven_mul _ _ hd]
  rw [positionOfRatio, h, Nat.mul_div_cancel _ hd]
  exact (congrArg _ hround).trans (position_of_units p)

theorem units_lt {p k : Nat} (h : p / rowLength ≤ k + 1) : units p < 2 ^ 53 * 2 ^ k := by
  by_cases hp : p < 2 * rowLength
  · have hlow : p < 2 ^ 53 := by
      rw [rowLength_eq] at hp
      omega
    rw [units, if_pos hp]
    exact Nat.lt_of_lt_of_le hlow (Nat.le_mul_of_pos_right _ (Nat.pow_pos (by decide)))
  · have hmod : p % rowLength < rowLength := Nat.mod_lt _ (by decide)
    have hlow : rowLength + p % rowLength < 2 ^ 53 := by
      rw [rowLength_eq] at hmod ⊢
      omega
    rw [units, if_neg hp]
    exact Nat.mul_lt_mul_of_lt_of_le hlow (Nat.pow_le_pow_right (by decide) (by omega)) (Nat.pow_pos (by decide))

theorem ofRatio_of_position (negative : Bool) {n d : Nat} {p : Fin span} (h : positionOfRatio n d = p) :
    ofRatio negative n d = .finite negative p := by
  have hlt : positionOfRatio n d < span := h ▸ p.isLt
  rw [ofRatio, dif_pos hlt]
  exact congrArg _ (Fin.ext h)

theorem ofRatio_zero (negative : Bool) {p : Fin span} : ofRatio negative 0 1 = .finite negative p ↔ p.val = 0 := by
  have hzero : positionOfRatio 0 1 = 0 := by decide +kernel
  constructor
  · intro h
    rw [(ofRatio_eq_finite h).2, hzero]
  · intro hp
    exact ofRatio_of_position negative (hzero.trans hp.symm)

end Binary64

namespace Decimal

/-- A number that a decimal reads as has the sign asked for. -/
theorem sign_of_finite {d : Decimal} {b negative : Bool} {p : Fin span} (h : d.toBinary64 b = .finite negative p) :
    negative = b := by
  rw [toBinary64_eq] at h
  split at h
  · exact (ofRatio_eq_finite h).1
  split at h
  · cases h
  split at h
  · exact (ofRatio_eq_finite h).1
  · exact (ofRatio_eq_finite h).1

theorem toBinary64_of_readsBack {d : Decimal} {p : Fin span} (negative : Bool) (h : readsBack p d = true) :
    d.toBinary64 negative = .finite negative p := by
  rw [readsBack] at h
  split at h
  · rename_i b q hq
    cases sign_of_finite hq
    have hqp : q = p := Fin.ext (by simpa using h)
    exact toBinary64_finite negative (hqp ▸ hq)
  · cases h

/-- The exact decimal of a position other than zero. -/
theorem toBinary64_exact (negative : Bool) {p : Fin span} (hp : 0 < p.val) :
    (exact p).toBinary64 negative = .finite negative p := by
  have hunits : 0 < units p := units_pos hp
  have hfive : 0 < Nat.pow 5 1074 := by decide +kernel
  have hdigits : (exact p).digits ≠ 0 := Nat.ne_of_gt (Nat.mul_pos hunits hfive)
  have hmost : digitCount (exact p).digits ≤ 1384 := by
    have hrow : p.val / rowLength < 0x7FF := (Nat.div_lt_iff_lt_mul (by decide)).mpr p.isLt
    obtain ⟨k, most, hk, hmost, hle⟩ : ∃ k most, p.val / rowLength ≤ k + 1 ∧ most = 1384 ∧
        2 ^ 53 * 2 ^ k * Nat.pow 5 1074 ≤ Nat.pow 10 most :=
      ⟨2045, 1384, Nat.le_of_lt_succ hrow, rfl, by decide +kernel⟩
    have hlt : units p * Nat.pow 5 1074 < 2 ^ 53 * 2 ^ k * Nat.pow 5 1074 :=
      (Nat.mul_lt_mul_right hfive).mpr (units_lt hk)
    rw [← hmost]
    exact (digitCount_le_iff (by omega)).mpr (Nat.lt_of_lt_of_le hlt hle)
  have hleast : 744 ≤ digitCount (exact p).digits := by
    obtain ⟨least, hleast, hle⟩ : ∃ least, least = 743 ∧ Nat.pow 10 least ≤ Nat.pow 5 1074 :=
      ⟨743, rfl, by decide +kernel⟩
    have hge : Nat.pow 5 1074 ≤ units p * Nat.pow 5 1074 := Nat.le_mul_of_pos_left _ hunits
    have : ¬digitCount (exact p).digits ≤ least := fun h =>
      Nat.not_lt.mpr (Nat.le_trans hle hge) ((digitCount_le_iff (by omega)).mp h)
    omega
  have htop : (exact p).top = -1074 + digitCount (exact p).digits := rfl
  have hworth : (exact p).numerator * perOne = units p * (exact p).denominator := by
    have hten : Nat.pow 5 1074 * perOne = 10 ^ (-(-1074 : Int)).toNat := by decide +kernel
    have hnumerator : (exact p).numerator = units p * Nat.pow 5 1074 := Nat.mul_one _
    have hdenominator : (exact p).denominator = 10 ^ (-(-1074 : Int)).toNat := rfl
    rw [hnumerator, hdenominator, Nat.mul_assoc, hten]
  have hposition := positionOfRatio_of_units (denominator_pos _) hworth
  rw [toBinary64_eq, if_neg hdigits, if_neg (by omega), if_neg (by omega)]
  exact ofRatio_of_position negative hposition

theorem toBinary64_shortest (negative : Bool) {p : Fin span} (hp : 0 < p.val) :
    (shortest p).toBinary64 negative = .finite negative p := by
  rw [shortest]
  cases hfound : (List.range 17).findSome? fun i =>
      (neighbours p (magnitude p - (i + 1 : Nat))).find? (readsBack p) with
  | none => exact toBinary64_exact negative hp
  | some d =>
    obtain ⟨i, -, hi⟩ := List.exists_of_findSome?_eq_some hfound
    exact toBinary64_of_readsBack negative (List.find?_some hi)

/-- The shortest decimal of a number other than zero has a digit other than zero. -/
theorem digits_shortest {p : Fin span} (hp : 0 < p.val) : 0 < (shortest p).digits := by
  refine Nat.pos_of_ne_zero fun hzero => ?_
  have hread := toBinary64_shortest false hp
  rw [toBinary64_eq, if_pos hzero, ofRatio_zero] at hread
  omega

end Decimal

end ShaderLoom
