/-
  ShaderLoom.Proofs.Number.Rounding — the number nearest to a quotient or a decimal.

  Rounding sees only what a quotient is worth, not how it is written (`ofRatio_of_cross`), so a
  decimal reads as the same number with zeros behind its digits (`toBinary64_shift`). A sign is
  put on after rounding (`toBinary64_finite`).
-/

import Mathlib.Algebra.Group.Nat.Defs
import ShaderLoom.Number.Written
import ShaderLoom.Proofs.Number.Whole

namespace ShaderLoom

theorem roundHalfEven_mul (n d : Nat) {k : Nat} (hk : 0 < k) : roundHalfEven (n * k) (d * k) = roundHalfEven n d := by
  have hbelow : 2 * (n % d * k) < d * k ↔ 2 * (n % d) < d := by
    rw [← Nat.mul_assoc]
    exact Nat.mul_lt_mul_right hk
  have habove : d * k < 2 * (n % d * k) ↔ d < 2 * (n % d) := by
    rw [← Nat.mul_assoc]
    exact Nat.mul_lt_mul_right hk
  simp only [roundHalfEven, Nat.mul_div_mul_right _ _ hk, Nat.mul_mod_mul_right, hbelow, habove]

namespace Binary64

theorem positionOfRatio_mul (n d : Nat) {k : Nat} (hk : 0 < k) :
    positionOfRatio (n * k) (d * k) = positionOfRatio n d := by
  have hscaled : n * k * perOne = n * perOne * k := Nat.mul_right_comm n k perOne
  have hunit : ∀ s, d * k * s = d * s * k := fun s => Nat.mul_right_comm d k s
  rw [positionOfRatio, positionOfRatio, hscaled, Nat.mul_div_mul_right _ _ hk, hunit, roundHalfEven_mul _ _ hk]

variable {negative : Bool} {n d n' d' : Nat}

/-- Quotients that are worth the same round to the same number. -/
theorem ofRatio_of_cross (hd : 0 < d) (hd' : 0 < d') (h : n * d' = n' * d) :
    ofRatio negative n d = ofRatio negative n' d' := by
  have hposition : positionOfRatio n d = positionOfRatio n' d' := by
    rw [← positionOfRatio_mul n d hd', h, Nat.mul_comm d d', positionOfRatio_mul n' d' hd]
  simp only [ofRatio, hposition]

theorem ofRatio_finite {b : Bool} {p : Fin span} (h : ofRatio b n d = .finite b p) :
    ofRatio negative n d = .finite negative p := by
  obtain ⟨-, hp⟩ := ofRatio_eq_finite h
  have hlt : positionOfRatio n d < span := hp ▸ p.isLt
  rw [ofRatio, dif_pos hlt]
  exact congrArg _ (Fin.ext hp.symm)

end Binary64

namespace Decimal

/-! ## Digits -/

theorem digitText_mul_ten {n : Nat} (hn : 0 < n) : digitText (n * 10) = digitText n ++ ['0'] := by
  have := Nat.toDigits_append_toDigits (b := 10) (d := 0) (by decide) hn (by decide)
  rw [Nat.add_zero, Nat.mul_comm, Nat.toDigits_zero] at this
  exact this.symm

theorem digitText_mul_pow {n : Nat} (hn : 0 < n) (k : Nat) : digitText (n * 10 ^ k) = digitText n ++ zeros k := by
  induction k with
  | zero => rw [Nat.pow_zero, Nat.mul_one, zeros, List.replicate_zero, List.append_nil]
  | succ k ih =>
    have hpos : 0 < n * 10 ^ k := Nat.mul_pos hn (Nat.pow_pos (by decide))
    rw [Nat.pow_succ, ← Nat.mul_assoc, digitText_mul_ten hpos, ih, List.append_assoc, zeros, zeros,
      List.replicate_succ']

theorem digitCount_mul_pow {n : Nat} (hn : 0 < n) (k : Nat) : digitCount (n * 10 ^ k) = digitCount n + k := by
  have := congrArg List.length (digitText_mul_pow hn k)
  rwa [List.length_append, zeros, List.length_replicate] at this

theorem digitCount_le_iff {n k : Nat} (hk : 0 < k) : digitCount n ≤ k ↔ n < 10 ^ k :=
  Nat.length_toDigits_le_iff (by decide) hk

/-! ## Powers of ten -/

/-- The least power of ten above a decimal other than zero. -/
def top (d : Decimal) : Int := d.exponent + digitCount d.digits

/-- A decimal as a quotient of whole numbers. -/
def numerator (d : Decimal) : Nat := d.digits * 10 ^ d.exponent.toNat

def denominator (d : Decimal) : Nat := 10 ^ (-d.exponent).toNat

theorem denominator_pos (d : Decimal) : 0 < d.denominator := Nat.pow_pos (by decide)

theorem toBinary64_eq (negative : Bool) (d : Decimal) : d.toBinary64 negative =
    if d.digits = 0 then .ofRatio negative 0 1
    else if d.top > 310 then .infinite negative
    else if d.top < -330 then .ofRatio negative 0 1
    else .ofRatio negative d.numerator d.denominator := by
  obtain ⟨digits, exponent⟩ := d
  rw [toBinary64, top]
  cases exponent with
  | ofNat e =>
    have hdenominator : denominator ⟨digits, .ofNat e⟩ = 1 := by
      have : (-Int.ofNat e).toNat = 0 := by simp
      rw [denominator, this, Nat.pow_zero]
    rw [hdenominator]
    rfl
  | negSucc e =>
    have hnumerator : numerator ⟨digits, .negSucc e⟩ = digits := by
      have : (Int.negSucc e).toNat = 0 := rfl
      rw [numerator, this, Nat.pow_zero, Nat.mul_one]
    have hdenominator : denominator ⟨digits, .negSucc e⟩ = Nat.pow 10 (e + 1) := rfl
    rw [hnumerator, hdenominator]

/-- Zeros behind the digits of a decimal do not change the number it reads as. -/
theorem toBinary64_shift (negative : Bool) (m : Nat) (e : Int) (k : Nat) :
    toBinary64 negative ⟨m * 10 ^ k, e - k⟩ = toBinary64 negative ⟨m, e⟩ := by
  rw [toBinary64_eq, toBinary64_eq]
  by_cases hm : m = 0
  · rw [if_pos (by simp [hm]), if_pos hm]
  have hpos : 0 < m := Nat.pos_of_ne_zero hm
  have hne : m * 10 ^ k ≠ 0 := Nat.ne_of_gt (Nat.mul_pos hpos (Nat.pow_pos (by decide)))
  have htop : top ⟨m * 10 ^ k, e - k⟩ = top ⟨m, e⟩ := by
    simp only [top, digitCount_mul_pow hpos]
    omega
  have hcross : numerator ⟨m * 10 ^ k, e - k⟩ * denominator ⟨m, e⟩ =
      numerator ⟨m, e⟩ * denominator ⟨m * 10 ^ k, e - k⟩ := by
    simp only [numerator, denominator, Nat.mul_assoc, ← Nat.pow_add]
    congr 2
    omega
  rw [if_neg hne, if_neg hm, htop, Binary64.ofRatio_of_cross (denominator_pos _) (denominator_pos _) hcross]

/-- A sign does not change where a decimal lies. -/
theorem toBinary64_finite {d : Decimal} {b : Bool} {p : Fin Binary64.span} (negative : Bool)
    (h : d.toBinary64 b = .finite b p) : d.toBinary64 negative = .finite negative p := by
  rw [toBinary64_eq] at h ⊢
  split at h
  · rename_i hzero
    rw [if_pos hzero]
    exact Binary64.ofRatio_finite h
  rename_i hzero
  split at h
  · cases h
  rename_i habove
  split at h
  · rename_i hbelow
    rw [if_neg hzero, if_neg habove, if_pos hbelow]
    exact Binary64.ofRatio_finite h
  · rename_i hbelow
    rw [if_neg hzero, if_neg habove, if_neg hbelow]
    exact Binary64.ofRatio_finite h

end Decimal

end ShaderLoom
