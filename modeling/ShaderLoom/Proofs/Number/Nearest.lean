/-
  ShaderLoom.Proofs.Number.Nearest — rounding keeps the order and stays close.

  A rounded quotient is at most half a step away (`roundHalfEven_close`) and no other whole number is
  nearer (`roundHalfEven_of_near`). The same holds of the position nearest to a quotient: greater
  quotients never take smaller positions (`positionOfRatio_mono`), and what the position is worth lies
  at most half a gap away (`positionOfRatio_close`), the gap being that of the row of the quotient.
-/

import Mathlib.Data.Nat.Log
import ShaderLoom.Proofs.Number.Shortest

namespace ShaderLoom

/-! ## Whole numbers -/

variable {n n' d d' k m : Nat}

theorem div_le_roundHalfEven (n d : Nat) : n / d ≤ roundHalfEven n d := by
  simp only [roundHalfEven]
  split
  · exact Nat.le_refl _
  · split <;> omega

theorem roundHalfEven_le_succ (n d : Nat) : roundHalfEven n d ≤ n / d + 1 := by
  simp only [roundHalfEven]
  split
  · omega
  · split <;> omega

theorem roundHalfEven_le (hd : 0 < d) (h : n ≤ m * d) : roundHalfEven n d ≤ m := by
  have hq : n / d ≤ m := Nat.div_le_of_le_mul (Nat.mul_comm m d ▸ h)
  have hsplit : d * (n / d) + n % d = n := Nat.div_add_mod n d
  rcases Nat.lt_or_ge (n / d) m with hlt | hge
  · exact Nat.le_trans (roundHalfEven_le_succ n d) hlt
  · obtain rfl : n / d = m := Nat.le_antisymm hq hge
    have hrest : n % d = 0 := by
      rw [Nat.mul_comm] at h
      omega
    simp only [roundHalfEven, hrest, Nat.mul_zero, if_pos hd, Nat.le_refl]

theorem le_roundHalfEven (hd : 0 < d) (h : m * d ≤ n) : m ≤ roundHalfEven n d :=
  Nat.le_trans ((Nat.le_div_iff_mul_le hd).mpr h) (div_le_roundHalfEven n d)

theorem roundHalfEven_close (n : Nat) (hd : 0 < d) :
    2 * (roundHalfEven n d * d) ≤ 2 * n + d ∧ 2 * n ≤ 2 * (roundHalfEven n d * d) + d := by
  have hsplit : n / d * d + n % d = n := Nat.div_add_mod' n d
  have hrest : n % d < d := Nat.mod_lt _ hd
  have hnext : (n / d + 1) * d = n / d * d + d := Nat.succ_mul _ _
  simp only [roundHalfEven]
  split
  · omega
  · split
    · omega
    · rcases Nat.mod_two_eq_zero_or_one (n / d) with heven | hodd
      · rw [heven, Nat.add_zero]
        omega
      · rw [hodd]
        omega

/-- A whole number less than half a step away is the one that is rounded to. -/
theorem roundHalfEven_of_near (hlow : 2 * (k * d) < 2 * n + d) (hhigh : 2 * n < 2 * (k * d) + d) :
    roundHalfEven n d = k := by
  have hd : 0 < d := by omega
  obtain ⟨hbelow, habove⟩ := roundHalfEven_close n hd
  have hstep : ∀ a b, 2 * (a * d) < 2 * (b * d) + 2 * d → a ≤ b := fun a b h => by
    have : a * d < (b + 1) * d := by
      rw [Nat.succ_mul]
      omega
    exact Nat.le_of_lt_succ (Nat.lt_of_mul_lt_mul_right this)
  exact Nat.le_antisymm (hstep _ _ (by omega)) (hstep _ _ (by omega))

theorem roundHalfEven_eq_zero_iff (hd : 0 < d) : roundHalfEven n d = 0 ↔ 2 * n ≤ d := by
  constructor
  · intro hzero
    have hclose := (roundHalfEven_close n hd).2
    rwa [hzero, Nat.zero_mul, Nat.mul_zero, Nat.zero_add] at hclose
  · intro h
    have hlt : n < d := by omega
    rw [roundHalfEven, Nat.div_eq_of_lt hlt, Nat.mod_eq_of_lt hlt]
    split
    · rfl
    · exact if_neg (Nat.not_lt.mpr h)

theorem roundHalfEven_mono (hd : 0 < d) (hd' : 0 < d') (h : n * d' ≤ n' * d) :
    roundHalfEven n d ≤ roundHalfEven n' d' := by
  suffices hsame : ∀ a b e, 0 < e → a ≤ b → roundHalfEven a e ≤ roundHalfEven b e by
    rw [← roundHalfEven_mul n d hd', ← roundHalfEven_mul n' d' hd, Nat.mul_comm d' d]
    exact hsame _ _ _ (Nat.mul_pos hd hd') h
  intro a b e he hab
  have hq : a / e ≤ b / e := Nat.div_le_div_right hab
  rcases Nat.lt_or_ge (a / e) (b / e) with hlt | hge
  · exact Nat.le_trans (roundHalfEven_le_succ a e) (Nat.le_trans hlt (div_le_roundHalfEven b e))
  · have hsame : b / e = a / e := Nat.le_antisymm hge hq
    have ha : e * (a / e) + a % e = a := Nat.div_add_mod a e
    have hb : e * (a / e) + b % e = b := hsame ▸ Nat.div_add_mod b e
    have hrest : a % e ≤ b % e := by omega
    simp only [roundHalfEven, hsame]
    split_ifs <;> omega

namespace Binary64

/-! ## Positions -/

/-- The row that a quotient is rounded in, counted from the first two, which are one. -/
def rowOfRatio (n d : Nat) : Nat := (n * perOne / d).log2 - 52

/-- The steps of its row that a quotient is rounded to. -/
def stepsOfRatio (n d : Nat) : Nat := roundHalfEven (n * perOne) (d * 2 ^ rowOfRatio n d)

theorem positionOfRatio_eq (n d : Nat) : positionOfRatio n d = rowOfRatio n d * rowLength + stepsOfRatio n d := rfl

theorem rowLength_pos : 0 < rowLength := by decide

theorem rowOfRatio_mono (hd : 0 < d) (hd' : 0 < d') (h : n * d' ≤ n' * d) : rowOfRatio n d ≤ rowOfRatio n' d' := by
  have hfloor : n * perOne / d ≤ n' * perOne / d' := by
    rw [Nat.le_div_iff_mul_le hd']
    refine Nat.le_of_mul_le_mul_right ?_ hd
    calc n * perOne / d * d' * d = n * perOne / d * d * d' := Nat.mul_right_comm _ _ _
      _ ≤ n * perOne * d' := Nat.mul_le_mul_right _ (Nat.div_mul_le_self _ _)
      _ = n * d' * perOne := Nat.mul_right_comm _ _ _
      _ ≤ n' * d * perOne := Nat.mul_le_mul_right _ h
      _ = n' * perOne * d := Nat.mul_right_comm _ _ _
  have hlog : (n * perOne / d).log2 ≤ (n' * perOne / d').log2 := by
    rw [Nat.log2_eq_log_two, Nat.log2_eq_log_two]
    exact Nat.log_mono_right hfloor
  exact Nat.sub_le_sub_right hlog 52

/-- Rounding ends in the row or at the start of the next. -/
theorem stepsOfRatio_le (n : Nat) (hd : 0 < d) : stepsOfRatio n d ≤ 2 * rowLength := by
  have hnext : n * perOne / d < 2 ^ (53 + rowOfRatio n d) := by
    refine Nat.lt_of_lt_of_le Nat.lt_log2_self (Nat.pow_le_pow_right (by decide) ?_)
    rw [rowOfRatio]
    omega
  refine roundHalfEven_le (Nat.mul_pos hd (Nat.pow_pos (by decide))) ?_
  have hcross : n * perOne < 2 ^ (53 + rowOfRatio n d) * d := (Nat.div_lt_iff_lt_mul hd).mp hnext
  rw [rowLength_eq, show 2 * 2 ^ 52 = 2 ^ 53 from rfl, Nat.mul_left_comm, ← Nat.pow_add, Nat.mul_comm d]
  exact Nat.le_of_lt hcross

/-- A row beyond the first two starts with a power of two. -/
theorem le_stepsOfRatio (n : Nat) (hd : 0 < d) (h : 0 < rowOfRatio n d) : rowLength ≤ stepsOfRatio n d := by
  have hlog : (n * perOne / d).log2 = 52 + rowOfRatio n d := by
    rw [rowOfRatio] at h ⊢
    omega
  have hne : n * perOne / d ≠ 0 := by
    intro hzero
    rw [hzero, Nat.log2_zero] at hlog
    omega
  have hfloor : 2 ^ (52 + rowOfRatio n d) ≤ n * perOne / d := hlog ▸ Nat.log2_self_le hne
  refine le_roundHalfEven (Nat.mul_pos hd (Nat.pow_pos (by decide))) ?_
  rw [rowLength_eq, Nat.mul_left_comm, ← Nat.pow_add, Nat.mul_comm d]
  exact (Nat.le_div_iff_mul_le hd).mp hfloor

theorem positionOfRatio_mono (hd : 0 < d) (hd' : 0 < d') (h : n * d' ≤ n' * d) :
    positionOfRatio n d ≤ positionOfRatio n' d' := by
  rw [positionOfRatio_eq, positionOfRatio_eq]
  rcases Nat.lt_or_ge (rowOfRatio n d) (rowOfRatio n' d') with hlt | hge
  · have hsteps := stepsOfRatio_le n hd
    have hsteps' := le_stepsOfRatio n' hd' (Nat.zero_lt_of_lt hlt)
    have hrow : (rowOfRatio n d + 1) * rowLength ≤ rowOfRatio n' d' * rowLength := Nat.mul_le_mul_right _ hlt
    rw [Nat.succ_mul] at hrow
    omega
  · have hrow : rowOfRatio n' d' = rowOfRatio n d := Nat.le_antisymm hge (rowOfRatio_mono hd hd' h)
    have hpow : 0 < 2 ^ rowOfRatio n d := Nat.pow_pos (by decide)
    rw [stepsOfRatio, stepsOfRatio, hrow]
    refine Nat.add_le_add_left (roundHalfEven_mono (Nat.mul_pos hd hpow) (Nat.mul_pos hd' hpow) ?_) _
    calc n * perOne * (d' * 2 ^ rowOfRatio n d) = n * d' * (perOne * 2 ^ rowOfRatio n d) := Nat.mul_mul_mul_comm _ _ _ _
      _ ≤ n' * d * (perOne * 2 ^ rowOfRatio n d) := Nat.mul_le_mul_right _ h
      _ = n' * perOne * (d * 2 ^ rowOfRatio n d) := Nat.mul_mul_mul_comm _ _ _ _

theorem positionOfRatio_units (p : Nat) : positionOfRatio (units p) perOne = p := positionOfRatio_of_units perOne_pos rfl

theorem units_mono {p q : Nat} (h : p ≤ q) : units p ≤ units q := by
  refine Nat.le_of_not_lt fun hlt => ?_
  have hback := positionOfRatio_mono perOne_pos perOne_pos (Nat.mul_le_mul_right perOne (Nat.le_of_lt hlt))
  rw [positionOfRatio_units, positionOfRatio_units] at hback
  rw [Nat.le_antisymm h hback] at hlt
  exact Nat.lt_irrefl _ hlt

/-- What a number of steps of a row is worth. -/
theorem units_row {row steps : Nat} (hle : steps ≤ 2 * rowLength) (hge : 0 < row → rowLength ≤ steps) :
    units (row * rowLength + steps) = steps * 2 ^ row := by
  have hpos := rowLength_pos
  have hworth : ∀ r e, r < rowLength → 2 ≤ e → units (e * rowLength + r) = (rowLength + r) * 2 ^ (e - 1) := by
    intro r e hr he
    have hbeyond : ¬e * rowLength + r < 2 * rowLength := by
      have := Nat.mul_le_mul_right rowLength he
      omega
    rw [units, if_neg hbeyond, Nat.mul_add_mod_of_lt hr, Nat.mul_comm e, Nat.mul_add_div hpos, Nat.div_eq_of_lt hr,
      Nat.add_zero]
    rfl
  rcases Nat.lt_or_ge steps (2 * rowLength) with hlt | hfull
  · rcases Nat.eq_zero_or_pos row with rfl | hrow
    · rw [Nat.zero_mul, Nat.zero_add, Nat.pow_zero, Nat.mul_one, units, if_pos hlt]
    · obtain ⟨r, rfl⟩ := Nat.exists_eq_add_of_le (hge hrow)
      have := hworth r (row + 1) (by omega) (by omega)
      rw [Nat.add_sub_cancel, Nat.succ_mul] at this
      rw [← Nat.add_assoc, this]
  · obtain rfl : steps = 2 * rowLength := Nat.le_antisymm hle hfull
    have := hworth 0 (row + 2) hpos (by omega)
    rw [Nat.add_mul, Nat.add_zero, Nat.add_zero] at this
    rw [this, show row + 2 - 1 = row + 1 from rfl, Nat.pow_succ, Nat.mul_comm (2 ^ row), ← Nat.mul_assoc,
      Nat.mul_comm rowLength]

theorem units_positionOfRatio (n : Nat) (hd : 0 < d) : units (positionOfRatio n d) = stepsOfRatio n d * 2 ^ rowOfRatio n d :=
  units_row (stepsOfRatio_le n hd) (le_stepsOfRatio n hd)

/-- A quotient and the position it takes are at most half a gap apart. -/
theorem positionOfRatio_close (n : Nat) (hd : 0 < d) :
    2 * (units (positionOfRatio n d) * d) ≤ 2 * (n * perOne) + d * 2 ^ rowOfRatio n d ∧
      2 * (n * perOne) ≤ 2 * (units (positionOfRatio n d) * d) + d * 2 ^ rowOfRatio n d := by
  have hworth : units (positionOfRatio n d) * d = stepsOfRatio n d * (d * 2 ^ rowOfRatio n d) := by
    rw [units_positionOfRatio n hd, Nat.mul_assoc, Nat.mul_comm d]
  rw [hworth]
  exact roundHalfEven_close (n * perOne) (Nat.mul_pos hd (Nat.pow_pos (by decide)))

end Binary64

end ShaderLoom
