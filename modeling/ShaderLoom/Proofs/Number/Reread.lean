/-
  ShaderLoom.Proofs.Number.Reread — what a plain literal reads as.

  A literal is read as the decimal that its digits write (`number?_pointed`). In positional form that
  is the shortest decimal of the number, which reads back. A literal that is cut to seventeen decimals
  is the number rounded to them (`number?_shortened`): from 10^16 up the number is whole and
  nothing is lost (`rounded_of_large`), but below 10^-4 it only reads back if it is the number nearest
  to some decimal of seventeen places (`rounded_of_small`), for the gap between numbers is then so much
  smaller than the last place that no other decimal comes near. `literal_reread` says when a literal
  reads back, how far off it can read, and which numbers are written as zero.
-/

import Mathlib.Data.List.TakeWhile
import ShaderLoom.Proofs.Number.Nearest
import ShaderLoom.Proofs.Number.Pointed
import ShaderLoom.Proofs.Number.Spelled

namespace ShaderLoom

open Decimal Binary64

/-! ## Reading digits with a point -/

namespace Reading

variable {whole part cs : List Char}

theorem digitRow_of_isDigits {ds : List Char} (h : IsDigits ds) : DigitRow ds :=
  fun c hc => isDigit_of_ascii (h.digits c hc)

theorem spells_pointed (hwhole : IsDigits whole) (hpart : IsDigits part) :
    Spells (whole ++ '.' :: part) ⟨ofDigits (whole ++ part), 0 - part.length⟩ := by
  have hspells := Spells.pointed (digitRow_of_isDigits hwhole) (digitRow_of_isDigits hpart)
    (fun h => hwhole.nonempty h.1) .none
  rwa [List.append_nil] at hspells

theorem decimal?_pointed (hwhole : IsDigits whole) (hpart : IsDigits part) :
    decimal? (whole ++ '.' :: part) = some ⟨ofDigits (whole ++ part), 0 - part.length⟩ :=
  decimal?_spelled (spells_pointed hwhole hpart)

theorem splitSign_signText (negative : Bool) (h : IsDigits whole) :
    splitSign (signText negative ++ (whole ++ cs)) = (negative, whole ++ cs) := by
  obtain ⟨c, rest, rfl⟩ := List.exists_cons_of_ne_nil h.nonempty
  exact splitSign_append (Or.inl (isDigit_of_ascii (h.digits c List.mem_cons_self))) negative

theorem number?_pointed (negative : Bool) (hwhole : IsDigits whole) (hpart : IsDigits part) :
    number? (signText negative ++ (whole ++ '.' :: part)) =
      some ((Decimal.mk (ofDigits (whole ++ part)) (0 - part.length)).toBinary64 negative) :=
  number?_spelled negative (spells_pointed hwhole hpart)

end Reading

/-! ## Zeros left out -/

namespace Literal

variable {whole part : List Char}

theorem exists_trimmed (part : List Char) : ∃ k, part = Text.trimEnd (· == '0') part ++ zeros k := by
  refine ⟨(part.reverse.takeWhile (· == '0')).length, ?_⟩
  have hzeros : part.reverse.takeWhile (· == '0') = zeros (part.reverse.takeWhile (· == '0')).length := by
    refine List.eq_replicate_length.mpr fun c hc => ?_
    simpa using List.mem_takeWhile_imp hc
  have hsplit := congrArg List.reverse (List.takeWhile_append_dropWhile (p := (· == '0')) (l := part.reverse))
  rw [List.reverse_append, List.reverse_reverse, hzeros, zeros, List.reverse_replicate] at hsplit
  exact hsplit.symm

/-- Zeros at the end do not change what the digits read as, and no more does one zero put in their place. -/
theorem toBinary64_trimmed (negative : Bool) (whole part : List Char) :
    (Decimal.mk (Reading.ofDigits (whole ++ trimmed part)) (0 - (trimmed part).length)).toBinary64 negative =
      (Decimal.mk (Reading.ofDigits (whole ++ part)) (0 - part.length)).toBinary64 negative := by
  have hshift : ∀ (ds f : List Char) (k : Nat), (Decimal.mk (Reading.ofDigits (ds ++ f ++ zeros k))
      (0 - (f ++ zeros k).length)).toBinary64 negative =
        (Decimal.mk (Reading.ofDigits (ds ++ f)) (0 - f.length)).toBinary64 negative := by
    intro ds f k
    have hexponent : (0 : Int) - (f ++ zeros k).length = (0 - f.length) - k := by
      rw [List.length_append, zeros, List.length_replicate]
      omega
    rw [Reading.ofDigits_append_zeros, hexponent, toBinary64_shift]
  obtain ⟨k, hk⟩ := exists_trimmed part
  rw [trimmed]
  split
  · rename_i hnil
    rw [hnil, List.nil_append] at hk
    have hone := hshift whole [] 1
    have hall := hshift whole [] k
    rw [List.append_nil, List.nil_append] at hone hall
    rw [hk]
    exact hone.trans hall.symm
  · have hall := hshift whole (Text.trimEnd (· == '0') part) k
    rw [List.append_assoc, ← hk] at hall
    exact hall.symm

theorem number?_shortened (negative : Bool) (n : Nat) :
    Reading.number? (signText negative ++ shortened n) = some ((Decimal.mk n (-17)).toBinary64 negative) := by
  obtain ⟨whole, part, -, hshortened, hwhole, hpart, hlength, hvalue⟩ := shortened_parts n
  rw [hshortened, Reading.number?_pointed negative hwhole (isDigits_trimmed hpart.digits), toBinary64_trimmed, hvalue,
    hlength]
  rfl

theorem shortened_eq_zero_iff {n : Nat} : shortened n = "0.0".toList ↔ n = 0 := by
  constructor
  · intro h
    obtain ⟨whole, part, -, hshortened, hwhole, hpart, -, hvalue⟩ := shortened_parts n
    have hcut : whole ++ '.' :: trimmed part = ['0'] ++ '.' :: ['0'] := hshortened.symm.trans h
    obtain ⟨rfl, -, htrimmed⟩ := (List.append_cons_inj_of_notMem (point_not_mem hwhole.digits)
      (point_not_mem (isDigits_trimmed hpart.digits).digits)).mp hcut
    obtain ⟨k, hk⟩ := exists_trimmed part
    have hzeros : ∃ j, Text.trimEnd (· == '0') part = zeros j := by
      rw [trimmed] at htrimmed
      split at htrimmed
      · exact ⟨0, ‹_›⟩
      · exact ⟨1, htrimmed⟩
    obtain ⟨j, hj⟩ := hzeros
    rw [← hvalue, hk, hj]
    exact (Reading.ofDigits_zeros_append 1 _).trans
      ((Reading.ofDigits_zeros_append j _).trans (Reading.ofDigits_zeros k))
  · rintro rfl
    decide

end Literal

/-! ## Where a decimal lies -/

namespace Decimal

variable {d : Decimal} {e : Int} {p : Fin span} {k : Nat} {b negative : Bool}

theorem lt_of_top (h : d.top ≤ e) : d.numerator * 10 ^ (-e).toNat < 10 ^ e.toNat * d.denominator := by
  have hcount : d.digits < 10 ^ digitCount d.digits :=
    (digitCount_le_iff (List.length_pos_iff.mpr Nat.toDigits_ne_nil)).mp (Nat.le_refl _)
  have hexponents : digitCount d.digits + (d.exponent.toNat + (-e).toNat) ≤ e.toNat + (-d.exponent).toNat := by
    rw [top] at h
    omega
  rw [numerator, denominator, Nat.mul_assoc, ← Nat.pow_add, ← Nat.pow_add]
  refine Nat.lt_of_lt_of_le ?_ (Nat.pow_le_pow_right (by decide) hexponents)
  rw [Nat.pow_add 10 (digitCount d.digits)]
  exact (Nat.mul_lt_mul_right (Nat.pow_pos (by decide))).mpr hcount

theorem le_of_top (hd : 0 < d.digits) (h : e < d.top) :
    10 ^ e.toNat * d.denominator ≤ d.numerator * 10 ^ (-e).toNat := by
  have hcount : 10 ^ (digitCount d.digits - 1) ≤ d.digits := by
    rcases Nat.eq_zero_or_pos (digitCount d.digits - 1) with hone | hmore
    · rwa [hone]
    · exact Nat.le_of_not_lt fun hlt => absurd ((digitCount_le_iff hmore).mpr hlt) (by omega)
  have hexponents : e.toNat + (-d.exponent).toNat ≤
      (digitCount d.digits - 1) + (d.exponent.toNat + (-e).toNat) := by
    rw [top] at h
    omega
  rw [numerator, denominator, Nat.mul_assoc, ← Nat.pow_add, ← Nat.pow_add]
  refine Nat.le_trans (Nat.pow_le_pow_right (by decide) hexponents) ?_
  rw [Nat.pow_add 10 (digitCount d.digits - 1)]
  exact Nat.mul_le_mul_right _ hcount

/-- The shortest decimal takes the position it was found for. -/
theorem position_shortest (hp : 0 < p.val) :
    positionOfRatio (shortest p).numerator (shortest p).denominator = p := by
  have hread := toBinary64_shortest false hp
  have hzero : ofRatio false 0 1 ≠ .finite false p := fun hzero => Nat.ne_of_gt hp ((ofRatio_zero false).mp hzero)
  rw [toBinary64_eq] at hread
  split at hread
  · exact absurd hread hzero
  split at hread
  · cases hread
  split at hread
  · exact absurd hread hzero
  · exact (ofRatio_eq_finite hread).2.symm

theorem numerator_places (k : Nat) : numerator ⟨k, -17⟩ = k := Nat.mul_one k

theorem denominator_places (k : Nat) : denominator ⟨k, -17⟩ = 10 ^ 17 := rfl

theorem digitCount_small (h : k ≤ 10 ^ 13) : digitCount k ≤ 327 :=
  Nat.le_trans ((digitCount_le_iff (by decide : 0 < 14)).mpr (by omega)) (by decide)

/-- A decimal of seventeen places reads as the number nearest to it; its power of ten is in reach
however small it is. -/
theorem toBinary64_places (negative : Bool) (hk : digitCount k ≤ 327) :
    (Decimal.mk k (-17)).toBinary64 negative = ofRatio negative k (10 ^ 17) := by
  have htop : top ⟨k, -17⟩ = -17 + digitCount k := rfl
  rw [toBinary64_eq, htop, numerator_places, denominator_places]
  by_cases hzero : k = 0
  · rw [if_pos hzero, hzero]
    exact ofRatio_of_cross (by decide) (by decide) (by decide)
  · rw [if_neg hzero, if_neg (by omega), if_neg (by omega)]

theorem position_of_places (h : (Decimal.mk k (-17)).toBinary64 b = .finite negative p) :
    positionOfRatio k (10 ^ 17) = p := by
  by_cases hk : digitCount k ≤ 327
  · rw [toBinary64_places b hk] at h
    exact (ofRatio_eq_finite h).2.symm
  · have htop : top ⟨k, -17⟩ = -17 + digitCount k := rfl
    have hne : k ≠ 0 := fun hzero => hk (hzero ▸ by decide)
    rw [toBinary64_eq, htop, if_neg hne, if_pos (by omega)] at h
    cases h

end Decimal

/-! ## What seventeen decimals keep -/

namespace Binary64

variable {p : Fin span} {k : Nat}

/-- From 2^53 up every number is whole. -/
theorem perOne_dvd_units {p : Nat} (h : 1075 ≤ p / rowLength) : perOne ∣ units p := by
  have hbeyond : ¬p < 2 * rowLength := fun hlt => by
    have := (Nat.div_lt_iff_lt_mul rowLength_pos).mpr hlt
    omega
  obtain ⟨j, hj⟩ := Nat.exists_eq_add_of_le (show 1074 ≤ p / rowLength - 1 by omega)
  have hpow : ∀ a, Nat.pow 2 a ∣ Nat.pow 2 (a + j) := fun a => Nat.pow_dvd_pow 2 (Nat.le_add_right a j)
  rw [units, if_neg hbeyond, hj]
  unfold perOne
  exact Nat.dvd_mul_left_of_dvd (hpow 1074) _

/-- Whole numbers have at most 310 digits. -/
theorem digitCount_whole (p : Fin span) (h : units p = k * perOne) : digitCount k ≤ 310 := by
  have hrow : p.val / rowLength < 0x7FF := (Nat.div_lt_iff_lt_mul rowLength_pos).mpr p.isLt
  -- The exponents are given names so that the powers are not worked out outside the kernel.
  obtain ⟨j, most, hj, hmost, hle⟩ : ∃ j most, p.val / rowLength ≤ j + 1 ∧ most = 310 ∧
      2 ^ 53 * 2 ^ j ≤ Nat.pow 10 most * perOne := ⟨2045, 310, Nat.le_of_lt_succ hrow, rfl, by decide +kernel⟩
  have hlt := Nat.lt_of_lt_of_le (units_lt hj) hle
  rw [h] at hlt
  rw [← hmost]
  exact (digitCount_le_iff (by omega)).mpr (Nat.lt_of_mul_lt_mul_right hlt)

/-- The decimals of a number from 10^16 up are all zeros. -/
theorem rounded_of_large (negative : Bool) (hp : 0 < p.val) (h : 16 < (shortest p).top) :
    (Decimal.mk (roundHalfEven (units p * 10 ^ 17) perOne) (-17)).toBinary64 negative = .finite negative p := by
  have hrow : 1075 ≤ p.val / rowLength := by
    have hposition := positionOfRatio_mono Nat.one_pos (denominator_pos _)
      (show 10 ^ 16 * (shortest p).denominator ≤ (shortest p).numerator * 1 from le_of_top (digits_shortest hp) h)
    rw [position_shortest hp] at hposition
    have hfixed : 1075 ≤ positionOfRatio (10 ^ 16) 1 / rowLength := by decide +kernel
    exact Nat.le_trans hfixed (Nat.div_le_div_right hposition)
  obtain ⟨k, hk⟩ := perOne_dvd_units hrow
  rw [Nat.mul_comm] at hk
  have hrounded : roundHalfEven (units p * 10 ^ 17) perOne = k * 10 ^ 17 := by
    rw [hk, Nat.mul_right_comm]
    exact roundHalfEven_self _ perOne_pos
  have hposition : positionOfRatio (k * 10 ^ 17) (10 ^ 17) = p := by
    refine positionOfRatio_of_units (Nat.pow_pos (by decide)) ?_
    rw [hk, Nat.mul_right_comm]
  have hcount : digitCount (k * 10 ^ 17) ≤ 327 := by
    rcases Nat.eq_zero_or_pos k with rfl | hpos
    · decide
    · rw [digitCount_mul_pow hpos]
      exact Nat.add_le_add_right (digitCount_whole p hk) 17
  rw [hrounded]
  exact (toBinary64_places negative hcount).trans (ofRatio_of_position negative hposition)

/-! Below 10^-4 the gaps are less than 10^-17 wide. -/

/-- The number nearest to 10^-4 lies above it and the one before lies below; its row is that of gaps
well below 10^-17. -/
theorem tenThousandth_fixed : perOne ≤ units (positionOfRatio 1 (10 ^ 4)) * 10 ^ 4 ∧
    units (positionOfRatio 1 (10 ^ 4) - 1) * 10 ^ 4 < perOne ∧
    10 ^ 17 * 2 ^ rowOfRatio 1 (10 ^ 4) < perOne ∧ positionOfRatio 1 (10 ^ 4) < span := by
  decide +kernel

theorem tenThousandth_le_iff {p : Nat} : positionOfRatio 1 (10 ^ 4) ≤ p ↔ perOne ≤ units p * 10 ^ 4 := by
  obtain ⟨habove, hbelow, -⟩ := tenThousandth_fixed
  constructor
  · intro h
    exact Nat.le_trans habove (Nat.mul_le_mul_right _ (units_mono h))
  · intro h
    refine Nat.le_of_not_lt fun hlt => ?_
    have hbefore := Nat.mul_le_mul_right (10 ^ 4) (units_mono (Nat.le_sub_one_of_lt hlt))
    exact Nat.not_lt.mpr h (Nat.lt_of_le_of_lt hbefore hbelow)

theorem places_close (h : k * 10 ^ 4 ≤ 10 ^ 17) :
    2 * (units (positionOfRatio k (10 ^ 17)) * 10 ^ 17) < 2 * (k * perOne) + perOne ∧
      2 * (k * perOne) < 2 * (units (positionOfRatio k (10 ^ 17)) * 10 ^ 17) + perOne := by
  have hd : 0 < 10 ^ 17 := by decide
  have hrow : rowOfRatio k (10 ^ 17) ≤ rowOfRatio 1 (10 ^ 4) :=
    rowOfRatio_mono hd (by decide) (by rwa [Nat.one_mul])
  have hgap : 10 ^ 17 * 2 ^ rowOfRatio k (10 ^ 17) < perOne := by
    have hfixed := tenThousandth_fixed.2.2.1
    have hpow : 2 ^ rowOfRatio k (10 ^ 17) ≤ 2 ^ rowOfRatio 1 (10 ^ 4) := Nat.pow_le_pow_right (by decide) hrow
    omega
  obtain ⟨hbelow, habove⟩ := positionOfRatio_close k hd
  omega

/-- Below 10^-4 no two decimals of seventeen places take one position, and a number that one takes
is rounded to it. -/
theorem rounded_of_position (hk : k * 10 ^ 4 ≤ 10 ^ 17) (h : positionOfRatio k (10 ^ 17) = p) :
    roundHalfEven (units p * 10 ^ 17) perOne = k := by
  obtain ⟨hbelow, habove⟩ := places_close hk
  rw [h] at hbelow habove
  exact roundHalfEven_of_near habove hbelow

theorem rounded_of_small {negative : Bool} (hsmall : units p * 10 ^ 4 < perOne)
    (h : (Decimal.mk k (-17)).toBinary64 negative = .finite negative p) :
    roundHalfEven (units p * 10 ^ 17) perOne = k := by
  refine rounded_of_position (Nat.le_of_not_lt fun hlt => ?_) (position_of_places h)
  have hmono : positionOfRatio 1 (10 ^ 4) ≤ positionOfRatio k (10 ^ 17) :=
    positionOfRatio_mono (by decide) (by decide) (by omega)
  rw [position_of_places h] at hmono
  exact Nat.not_le.mpr hsmall (tenThousandth_le_iff.mp hmono)

/-- Below 10^-4 the decimals read as a number less than one of the last place away. -/
theorem exists_reread (negative : Bool) (hsmall : units p * 10 ^ 4 < perOne) :
    ∃ q : Fin span, (Decimal.mk (roundHalfEven (units p * 10 ^ 17) perOne) (-17)).toBinary64 negative =
        .finite negative q ∧
      units p * 10 ^ 17 < units q * 10 ^ 17 + perOne ∧ units q * 10 ^ 17 < units p * 10 ^ 17 + perOne := by
  have hk : roundHalfEven (units p * 10 ^ 17) perOne ≤ 10 ^ 13 := roundHalfEven_le perOne_pos (by omega)
  obtain ⟨hbelow, habove⟩ := roundHalfEven_close (units p * 10 ^ 17) perOne_pos
  generalize roundHalfEven (units p * 10 ^ 17) perOne = k at hk hbelow habove
  have hle : positionOfRatio k (10 ^ 17) ≤ positionOfRatio 1 (10 ^ 4) :=
    positionOfRatio_mono (by decide) (by decide) (by omega)
  have hspan := tenThousandth_fixed.2.2.2
  have hcount := digitCount_small hk
  obtain ⟨q, hq⟩ : ∃ q : Fin span, positionOfRatio k (10 ^ 17) = q := ⟨⟨_, Nat.lt_of_le_of_lt hle hspan⟩, rfl⟩
  obtain ⟨hnear, hnear'⟩ := places_close (show k * 10 ^ 4 ≤ 10 ^ 17 by omega)
  rw [hq] at hnear hnear'
  -- Half of a last place is lost in rounding the number, and less than half in reading the decimals.
  have hjoin : ∀ a b c e, 2 * a ≤ 2 * b + e → 2 * b < 2 * c + e → a < c + e := by omega
  have hjoin' : ∀ a b c e, 2 * b ≤ 2 * a + e → 2 * c < 2 * b + e → c < a + e := by omega
  have hread := (toBinary64_places negative hcount).trans (ofRatio_of_position negative hq)
  exact ⟨q, hread, hjoin _ _ _ _ habove hnear', hjoin' _ _ _ _ hbelow hnear⟩

end Binary64

/-! ## Plain literals -/

namespace Literal

variable {p : Fin span} {negative : Bool}

theorem isPositional_large (hp : 0 < p.val) (h : (shortest p).IsPositional) : perOne ≤ units p * 10 ^ 4 := by
  have hvalue : 1 * (shortest p).denominator ≤ (shortest p).numerator * 10 ^ 4 := le_of_top (digits_shortest hp) h.1
  have hmono := positionOfRatio_mono (by decide) (denominator_pos _) hvalue
  rw [position_shortest hp] at hmono
  exact tenThousandth_le_iff.mp hmono

theorem pos_of_large (h : perOne ≤ units p * 10 ^ 4) : 0 < p.val := Nat.pos_of_ne_zero fun hzero => by
  have hunits : units p = 0 := congrArg units hzero
  rw [hunits, Nat.zero_mul] at h
  exact Nat.not_le.mpr perOne_pos h

/-- From 10^-4 up a literal reads back. -/
theorem number?_plain_of_large (h : perOne ≤ units p * 10 ^ 4) :
    Reading.number? (plain (.finite negative p)) = some (.finite negative p) := by
  have hp := pos_of_large h
  by_cases hpositional : (shortest p).IsPositional
  · obtain ⟨whole, part, htext, hwhole, hpart, hvalue⟩ := plain_of_isPositional negative hp hpositional
    rw [htext, Reading.number?_pointed negative hwhole hpart, hvalue]
  rw [plain_of_exponent hp hpositional, number?_shortened]
  by_cases hlarge : 16 < (shortest p).top
  · rw [rounded_of_large negative hp hlarge]
  · -- A shortest decimal below 10^-4 is left for the nearest number to 10^-4 alone.
    have htop : (shortest p).top ≤ -4 := by
      simp only [IsPositional] at hpositional
      omega
    have hvalue := lt_of_top htop
    have hmono : positionOfRatio (shortest p).numerator (shortest p).denominator ≤ positionOfRatio 1 (10 ^ 4) :=
      positionOfRatio_mono (denominator_pos _) (by decide) (Nat.le_of_lt hvalue)
    rw [position_shortest hp] at hmono
    have hscaled : positionOfRatio (10 ^ 13) (10 ^ 17) = positionOfRatio 1 (10 ^ 4) :=
      Nat.le_antisymm (positionOfRatio_mono (by decide) (by decide) (by decide))
        (positionOfRatio_mono (by decide) (by decide) (by decide))
    have hposition := hscaled.trans (Nat.le_antisymm (tenThousandth_le_iff.mpr h) hmono)
    rw [rounded_of_position (by decide) hposition, toBinary64_places negative (digitCount_small (by decide)),
      ofRatio_of_position negative hposition]

/-- Below 10^-4 a literal is the number rounded to seventeen decimals. -/
theorem plain_of_small (h : units p * 10 ^ 4 < perOne) :
    plain (.finite negative p) = signText negative ++ shortened (roundHalfEven (units p * 10 ^ 17) perOne) := by
  rcases Nat.eq_zero_or_pos p.val with hp | hp
  · have hunits : units p = 0 := congrArg units hp
    have hzero : roundHalfEven 0 perOne = 0 := (roundHalfEven_eq_zero_iff perOne_pos).mpr (Nat.zero_le _)
    rw [plain_zero hp, hunits, Nat.zero_mul, hzero, shortened_eq_zero_iff.mpr rfl]
  · exact plain_of_exponent hp fun hpositional => Nat.not_lt.mpr (isPositional_large hp hpositional) h

theorem plain_eq_zero_iff : plain (.finite negative p) = signText negative ++ "0.0".toList ↔
    2 * (units p * 10 ^ 17) ≤ perOne := by
  have hlate : ∀ a b, 0 < b → b ≤ a * 10 ^ 4 → ¬2 * (a * 10 ^ 17) ≤ b := by omega
  rcases Nat.lt_or_ge (units p * 10 ^ 4) perOne with hsmall | hlarge
  · rw [plain_of_small hsmall, List.append_cancel_left_eq, shortened_eq_zero_iff, roundHalfEven_eq_zero_iff perOne_pos]
  · refine iff_of_false (fun htext => ?_) (hlate _ _ perOne_pos hlarge)
    have hread : Reading.number? (plain (.finite negative p)) = _ := number?_plain_of_large hlarge
    rw [htext, ← shortened_eq_zero_iff.mpr rfl, number?_shortened, toBinary64_eq, if_pos rfl] at hread
    exact Nat.ne_of_gt (pos_of_large hlarge) ((ofRatio_zero negative).mp (Option.some.inj hread))

/-- A literal reads as a number less than 10^-17 away. It reads back if the number is 10^-4 or more
or the nearest to some decimal of seventeen places, and else it does not; and a number of up to half
of 10^-17 is written as zero. -/
theorem literal_reread (negative : Bool) (p : Fin span) : ∃ (text : String) (q : Fin span),
    ofValue (.float (.finite negative p)) none = .ok text ∧
    Reading.number? text.toList = some (.finite negative q) ∧
    (q = p ↔ perOne ≤ units p * 10 ^ 4 ∨ ∃ k, (Decimal.mk k (-17)).toBinary64 negative = .finite negative p) ∧
    units p * 10 ^ 17 < units q * 10 ^ 17 + perOne ∧ units q * 10 ^ 17 < units p * 10 ^ 17 + perOne ∧
    (text.toList = signText negative ++ "0.0".toList ↔ 2 * (units p * 10 ^ 17) ≤ perOne) := by
  obtain ⟨text, hmade, htext⟩ : ∃ text, ofValue (.float (.finite negative p)) none = .ok text ∧
      text.toList = plain (.finite negative p) := ⟨_, rfl, String.toList_ofList⟩
  have hzero : text.toList = signText negative ++ "0.0".toList ↔ 2 * (units p * 10 ^ 17) ≤ perOne := by
    rw [htext]
    exact plain_eq_zero_iff
  rcases Nat.lt_or_ge (units p * 10 ^ 4) perOne with hsmall | hlarge
  · obtain ⟨q, hread, hbelow, habove⟩ := exists_reread negative hsmall
    refine ⟨text, q, hmade, ?_, ⟨?_, ?_⟩, hbelow, habove, hzero⟩
    · rw [htext, plain_of_small hsmall, number?_shortened, hread]
    · rintro rfl
      exact Or.inr ⟨_, hread⟩
    · rintro (hlarge | ⟨k, hk⟩)
      · exact absurd hsmall (Nat.not_lt.mpr hlarge)
      · rw [rounded_of_small hsmall hk, hk] at hread
        exact (Binary64.finite.inj hread).2.symm
  · have hread : Reading.number? text.toList = some (.finite negative p) := by
      rw [htext]
      exact number?_plain_of_large hlarge
    exact ⟨text, p, hmade, hread, iff_of_true rfl (Or.inl hlarge), Nat.lt_add_of_pos_right perOne_pos,
      Nat.lt_add_of_pos_right perOne_pos, hzero⟩

/-- The position nearest to 10^-20. -/
def tiny : Fin span := ⟨0x3BC79CA10C924223, by decide⟩

/-- So 10^-20 is written as zero and does not read back. -/
theorem tiny_not_reread : (Decimal.mk 1 (-20)).toBinary64 false = .finite false tiny ∧
    ofValue (.float (.finite false tiny)) none = .ok "0.0" ∧
    Reading.number? "0.0".toList ≠ some (.finite false tiny) := by
  have hfixed : (Decimal.mk 1 (-20)).toBinary64 false = .finite false tiny ∧
      2 * (units tiny * 10 ^ 17) ≤ perOne ∧ Reading.number? "0.0".toList ≠ some (.finite false tiny) := by
    decide +kernel
  obtain ⟨hread, hsmall, hzero⟩ := hfixed
  have hplain : plain (.finite false tiny) = "0.0".toList := plain_eq_zero_iff.mpr hsmall
  exact ⟨hread, congrArg (Except.ok ∘ String.ofList) hplain, hzero⟩

end Literal

end ShaderLoom
