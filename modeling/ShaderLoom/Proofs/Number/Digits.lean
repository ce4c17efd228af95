/-
  ShaderLoom.Proofs.Number.Digits — rows of decimal digits.

  Reading a row of digits gives back the number it was written for (`ofDigits_digitText`); zeros
  before it count for nothing and zeros behind it for powers of ten. The significant digits of a
  number are those of the number without its last zeros (`exists_significant`).
-/

import Mathlib.Data.List.Basic
import Mathlib.Data.List.Induction
import ShaderLoom.Number.Reading
import ShaderLoom.Proofs.Number.Rounding

namespace ShaderLoom

open Decimal

namespace Reading

theorem digitValue?_of_isDigit {c : Char} (h : c.isDigit = true) : Text.digitValue? c = some (c.toNat - 48) := by
  have hc : '0' ≤ c ∧ c ≤ '9' := by simpa [Char.isDigit, Char.le_def] using h
  rw [Text.digitValue?, if_pos hc]

theorem isDigit_of_ascii {c : Char} (h : c.isDigit = true) : Text.isDigit c = true := by
  rw [Text.isDigit, digitValue?_of_isDigit h]
  rfl

theorem not_blank_of_ascii {c : Char} (h : c.isDigit = true) : Text.isBlank c = false := by
  have hc : 48 ≤ c.toNat ∧ c.toNat ≤ 57 := by simpa [Char.isDigit, UInt32.le_iff_toNat_le] using h
  have hspace : c ≠ ' ' := by
    rintro rfl
    exact absurd h (by decide)
  simp only [Text.isBlank, Text.isNumberBlank, Text.isWideBlank, beq_eq_false_iff_ne.mpr hspace, Bool.false_or,
    Bool.or_eq_false_iff, Bool.and_eq_false_iff, decide_eq_false_iff_not, beq_eq_false_iff_ne]
  omega

theorem ofDigits_append (a b : List Char) :
    ofDigits (a ++ b) = b.foldl (fun n c => 10 * n + (Text.digitValue? c).getD 0) (ofDigits a) :=
  List.foldl_append

theorem ofDigits_eq {digits : List Char} (h : ∀ c ∈ digits, c.isDigit = true) :
    ofDigits digits = Nat.ofDigitChars 10 digits 0 := by
  rw [ofDigits, Nat.ofDigitChars_eq_foldl]
  refine List.foldl_ext _ _ 0 fun n c hc => ?_
  rw [digitValue?_of_isDigit (h c hc)]
  rfl

theorem isDigit_digitText {n : Nat} : ∀ c ∈ digitText n, c.isDigit = true :=
  fun _ hc => Nat.isDigit_of_mem_toDigits (by decide) (by decide) hc

theorem ofDigits_digitText (n : Nat) : ofDigits (digitText n) = n := by
  rw [ofDigits_eq isDigit_digitText]
  exact Nat.ofDigitChars_toDigits (by decide) (by decide)

theorem ofDigits_zeros_append (k : Nat) (digits : List Char) : ofDigits (zeros k ++ digits) = ofDigits digits := by
  induction k with
  | zero => rfl
  | succ k ih => exact ih

/-- Digits behind others move them up by their number. -/
theorem ofDigits_append_pow (a b : List Char) : ofDigits (a ++ b) = ofDigits a * 10 ^ b.length + ofDigits b := by
  induction b using List.reverseRecOn with
  | nil => simp [ofDigits]
  | append_singleton b c ih =>
    have hlast : ∀ cs, ofDigits (cs ++ [c]) = 10 * ofDigits cs + (Text.digitValue? c).getD 0 :=
      fun cs => ofDigits_append cs [c]
    rw [← List.append_assoc, hlast, hlast, ih, List.length_append, List.length_singleton, Nat.pow_succ, Nat.mul_add,
      Nat.mul_left_comm, Nat.mul_comm 10 (10 ^ b.length), Nat.add_assoc]

theorem ofDigits_zeros (k : Nat) : ofDigits (zeros k) = 0 := by
  have := ofDigits_zeros_append k []
  rwa [List.append_nil] at this

theorem ofDigits_append_zeros (digits : List Char) (k : Nat) : ofDigits (digits ++ zeros k) = ofDigits digits * 10 ^ k := by
  rw [ofDigits_append_pow, ofDigits_zeros, zeros, List.length_replicate, Nat.add_zero]

end Reading

namespace Decimal

theorem isDigit_zeros {k : Nat} : ∀ c ∈ zeros k, c.isDigit = true := by
  intro c hc
  rw [List.eq_of_mem_replicate hc]
  decide

theorem digitText_ne_nil (n : Nat) : digitText n ≠ [] := Nat.toDigits_ne_nil

theorem digitChar_ne_zero {d : Nat} (h : 0 < d) (hd : d < 10) : Nat.digitChar d ≠ '0' := by
  have hall : ∀ d < 10, 0 < d → Nat.digitChar d ≠ '0' := by decide
  exact hall d hd h

/-- The digits of a number other than zero do not start with a zero. -/
theorem head?_digitText {n : Nat} (hn : 0 < n) : (digitText n).head? ≠ some '0' := by
  induction n using Nat.strongRecOn with
  | ind n ih =>
    by_cases hlt : n < 10
    · rw [digitText, Nat.toDigits_of_lt_base hlt]
      exact fun h => digitChar_ne_zero hn hlt (Option.some.inj h)
    · have hdiv : 0 < n / 10 := Nat.div_pos (Nat.le_of_not_lt hlt) (by decide)
      rw [digitText, Nat.toDigits_of_base_le (by decide) (Nat.le_of_not_lt hlt),
        List.head?_append_of_ne_nil _ Nat.toDigits_ne_nil]
      exact ih (n / 10) (Nat.div_lt_self hn (by decide)) hdiv

theorem getLast?_digitText (n : Nat) : (digitText n).getLast? = some (Nat.digitChar (n % 10)) := by
  by_cases hlt : n < 10
  · rw [digitText, Nat.toDigits_of_lt_base hlt, Nat.mod_eq_of_lt hlt]
    rfl
  · rw [digitText, Nat.toDigits_of_base_le (by decide) (Nat.le_of_not_lt hlt), List.getLast?_concat]

theorem significant_mul_ten {n : Nat} (hn : 0 < n) : significant (n * 10) = significant n := by
  rw [significant, digitText_mul_ten hn, List.reverse_concat, List.dropWhile_cons_of_pos (by decide)]
  rfl

theorem significant_of_last {n : Nat} (hn : 0 < n % 10) : significant n = digitText n := by
  have hlast := getLast?_digitText n
  rw [← List.head?_reverse] at hlast
  obtain ⟨rest, hrest⟩ := List.head?_eq_some_iff.mp hlast
  have hne : (Nat.digitChar (n % 10) == '0') = false :=
    beq_false_of_ne (digitChar_ne_zero hn (Nat.mod_lt _ (by decide)))
  rw [significant, hrest, List.dropWhile_cons_of_neg (by simp [hne]), ← hrest, List.reverse_reverse]

/-- A number is its significant digits and zeros behind them. -/
theorem exists_significant {n : Nat} (hn : 0 < n) :
    ∃ s k, 0 < s ∧ n = s * 10 ^ k ∧ significant n = digitText s := by
  induction n using Nat.strongRecOn with
  | ind n ih =>
    by_cases hmod : n % 10 = 0
    · obtain ⟨m, rfl⟩ : ∃ m, n = m * 10 := ⟨n / 10, by omega⟩
      have hm : 0 < m := by omega
      obtain ⟨s, k, hs, hmk, hsignificant⟩ := ih m (by omega) hm
      exact ⟨s, k + 1, hs, by rw [hmk, Nat.pow_succ, Nat.mul_assoc], (significant_mul_ten hm).trans hsignificant⟩
    · exact ⟨n, 0, hn, by rw [Nat.pow_zero, Nat.mul_one], significant_of_last (Nat.pos_of_ne_zero hmod)⟩

end Decimal

end ShaderLoom
