/-
  ShaderLoom.Proofs.Json.Number — numbers read back from their plain text.

  A number in a record is a whole part, a fraction if any and a power of ten if any, and what
  stands behind it goes on none of them (`Delimited`). `number_of_parts` says what such a row of
  characters reads as. A whole number reads back (`number_digitText`), and so does a decimal in
  either notation (`number_text`), so that every number reads back from its line
  (`scalar_intText`, `scalar_numberLine`).
-/

import ShaderLoom.Json.Reading
import ShaderLoom.Json.Written
import ShaderLoom.Proofs.Lexeme.Lookahead
import ShaderLoom.Proofs.Number.Pointed

namespace ShaderLoom.Json

open ShaderLoom.Decimal ShaderLoom.Binary64
open ShaderLoom.Reading (ofDigits ofDigits_digitText ofDigits_zeros_append ofDigits_append_zeros)
open ShaderLoom.Lexeme (startsWith takeWhile_append_eq_left takeWhile_eq_nil)

variable {negative : Bool} {w f p rest tail : List Char}

/-- Behind a number stands nothing that goes on it. -/
def Delimited (rest : List Char) : Prop :=
  startsWith (fun c => isPlainDigit c || c == '.' || c == 'e' || c == 'E') rest = false

theorem isPlainDigit_eq (c : Char) : isPlainDigit c = c.isDigit := by
  simp [isPlainDigit, Char.isDigit, Char.le_def]

/-! ## The parts of a number -/

/-- The digits before a point: a zero alone, or digits that do not start with one. -/
structure IsWhole (w : List Char) : Prop where
  digits : ∀ c ∈ w, isPlainDigit c = true
  nonempty : w ≠ []
  zero : w.head? = some '0' → w = ['0']

theorem wholeDigits_append (hw : IsWhole w) (htail : startsWith isPlainDigit tail = false) :
    wholeDigits (w ++ tail) = w := by
  obtain ⟨c, cs, rfl⟩ := List.exists_cons_of_ne_nil hw.nonempty
  by_cases hc : c = '0'
  · subst hc
    rw [hw.zero rfl]
    rfl
  · have hstep : wholeDigits (c :: (cs ++ tail)) = (c :: (cs ++ tail)).takeWhile isPlainDigit :=
      wholeDigits.eq_2 _ fun _ h => hc (List.cons.inj h).1
    exact hstep.trans (takeWhile_append_eq_left.mpr ⟨hw.digits, htail⟩)

/-- A fraction with its point, where there is one. -/
def fractionText (f : List Char) : List Char := if f = [] then [] else '.' :: f

theorem fractionDigits_append (hf : ∀ c ∈ f, isPlainDigit c = true) (htail : startsWith isPlainDigit tail = false)
    (hpoint : tail.head? ≠ some '.') : fractionDigits (fractionText f ++ tail) = f := by
  by_cases hnil : f = []
  · subst hnil
    exact fractionDigits.eq_2 _ fun rest h => hpoint (by rw [show tail = '.' :: rest from h]; rfl)
  · rw [fractionText, if_neg hnil]
    exact takeWhile_append_eq_left.mpr ⟨hf, htail⟩

theorem number_of_parts (hw : IsWhole w) (hf : ∀ c ∈ f, isPlainDigit c = true)
    (htail : startsWith isPlainDigit tail = false) (hpoint : tail.head? ≠ some '.') :
    number negative (w ++ (fractionText f ++ tail)) =
      match power tail with
      | some (down, p, rest) =>
        .ok (.float ((Decimal.mk (ofDigits (w ++ f))
          ((if down then -(ofDigits p : Int) else ofDigits p) - f.length)).toBinary64 negative), rest)
      | none =>
        if f = [] then (whole negative w).map fun v => (v, tail)
        else .ok (.float ((Decimal.mk (ofDigits (w ++ f)) (0 - f.length)).toBinary64 negative), tail) := by
  have hstart : startsWith isPlainDigit (fractionText f ++ tail) = false := by
    by_cases hnil : f = []
    · rw [fractionText, if_pos hnil]
      exact htail
    · rw [fractionText, if_neg hnil]
      rfl
  have hdrop : (w ++ (fractionText f ++ tail)).drop w.length = fractionText f ++ tail := List.drop_left
  have hafter : (if f = [] then fractionText f ++ tail else (fractionText f ++ tail).drop (f.length + 1)) = tail := by
    by_cases hnil : f = []
    · rw [if_pos hnil, fractionText, if_pos hnil]
      rfl
    · rw [if_neg hnil, fractionText, if_neg hnil]
      exact List.drop_left' (rfl : ('.' :: f).length = f.length + 1)
  simp only [number, wholeDigits_append hw hstart, hdrop, fractionDigits_append hf htail hpoint, hafter]
  exact if_neg hw.nonempty

/-! ## What stands behind -/

theorem startsWith_of_delimited (h : Delimited rest) : startsWith isPlainDigit rest = false := by
  cases rest with
  | nil => rfl
  | cons c cs => simp_all [Delimited]

theorem point_of_delimited (h : Delimited rest) : rest.head? ≠ some '.' := by
  cases rest with
  | nil => simp
  | cons c cs => simp_all [Delimited]

theorem power_of_delimited (h : Delimited rest) : power rest = none := by
  cases rest with
  | nil => rfl
  | cons c cs =>
    have hc : ¬(c = 'e' ∨ c = 'E') := by simp_all [Delimited]
    exact if_neg fun h => hc h.1

/-- A power of ten with its sign. -/
theorem power_eq (down : Bool) (hp : ∀ c ∈ p, isPlainDigit c = true) (hne : p ≠ [])
    (hrest : startsWith isPlainDigit rest = false) :
    power ('e' :: (if down then '-' else '+') :: (p ++ rest)) = some (down, p, rest) := by
  have hrun : (p ++ rest).takeWhile isPlainDigit = p := takeWhile_append_eq_left.mpr ⟨hp, hrest⟩
  have hleft : (p ++ rest).dropWhile isPlainDigit = rest := by
    have hsplit := List.takeWhile_append_dropWhile (p := isPlainDigit) (l := p ++ rest)
    rw [hrun] at hsplit
    exact List.append_cancel_left hsplit
  have hsign : Reading.splitSign ((if down then '-' else '+') :: (p ++ rest)) = (down, p ++ rest) := by
    cases down <;> rfl
  simp only [power, hsign, hrun, hleft]
  exact if_pos ⟨Or.inl trivial, hne⟩

/-! ## Whole numbers and decimals -/

theorem isPlainDigit_digitText {n : Nat} : ∀ c ∈ digitText n, isPlainDigit c = true :=
  fun c hc => (isPlainDigit_eq c).trans (Reading.isDigit_digitText c hc)

theorem isPlainDigit_zeros {k : Nat} : ∀ c ∈ zeros k, isPlainDigit c = true :=
  fun c hc => (isPlainDigit_eq c).trans (isDigit_zeros c hc)

theorem isPlainDigit_append {a b : List Char} (ha : ∀ c ∈ a, isPlainDigit c = true)
    (hb : ∀ c ∈ b, isPlainDigit c = true) : ∀ c ∈ a ++ b, isPlainDigit c = true :=
  fun c hc => (List.mem_append.mp hc).elim (ha c) (hb c)

theorem isPlainDigit_zero : ∀ c ∈ ['0'], isPlainDigit c = true := List.forall_mem_singleton.mpr (by decide)

theorem isWhole_zero : IsWhole ['0'] := ⟨isPlainDigit_zero, by decide, fun _ => rfl⟩

theorem isWhole_of_head (hw : ∀ c ∈ w, isPlainDigit c = true) (hne : w ≠ []) (hhead : w.head? ≠ some '0') : IsWhole w :=
  ⟨hw, hne, fun h => absurd h hhead⟩

theorem isWhole_digitText (n : Nat) : IsWhole (digitText n) := by
  by_cases hn : n = 0
  · subst hn
    exact isWhole_zero
  · exact isWhole_of_head isPlainDigit_digitText (digitText_ne_nil n) (head?_digitText (Nat.pos_of_ne_zero hn))

/-- Digits alone are a whole number. -/
theorem number_digitText (negative : Bool) {n : Nat} (hn : (digitText n).length ≤ mostDigits) (hrest : Delimited rest) :
    number negative (digitText n ++ rest) = .ok (.int (if negative then -(n : Int) else n), rest) := by
  have hwhole : whole negative (digitText n) = .ok (.int (if negative then -(n : Int) else n)) := by
    rw [whole, ofDigits_digitText]
    exact if_pos hn
  refine (number_of_parts (f := []) (isWhole_digitText n) (by simp) (startsWith_of_delimited hrest)
    (point_of_delimited hrest)).trans ?_
  rw [power_of_delimited hrest, hwhole]
  rfl

/-- Digits with a point between them. -/
theorem number_point (hw : IsWhole w) (hf : ∀ c ∈ f, isPlainDigit c = true) (hne : f ≠ []) (hrest : Delimited rest) :
    number negative (w ++ '.' :: (f ++ rest)) =
      .ok (.float ((Decimal.mk (ofDigits (w ++ f)) (0 - f.length)).toBinary64 negative), rest) := by
  have htext : '.' :: (f ++ rest) = fractionText f ++ rest := by
    rw [fractionText, if_neg hne]
    rfl
  rw [htext, number_of_parts hw hf (startsWith_of_delimited hrest) (point_of_delimited hrest), power_of_delimited hrest]
  exact if_neg hne

/-- Digits, with a point between them or not, and a power of ten. -/
theorem number_power (negative down : Bool) (hw : IsWhole w) (hf : ∀ c ∈ f, isPlainDigit c = true)
    (hp : ∀ c ∈ p, isPlainDigit c = true) (hne : p ≠ []) (hrest : Delimited rest) :
    number negative (w ++ (fractionText f ++ 'e' :: (if down then '-' else '+') :: (p ++ rest))) =
      .ok (.float ((Decimal.mk (ofDigits (w ++ f))
        ((if down then -(ofDigits p : Int) else ofDigits p) - f.length)).toBinary64 negative), rest) := by
  rw [number_of_parts hw hf rfl (by simp), power_eq down hp hne (startsWith_of_delimited hrest)]

theorem scientific_cons (d : Char) (f : List Char) (exponent : Int) :
    scientific (d :: f) exponent = [d] ++ (fractionText f ++ 'e' :: (if exponent < 0 then '-' else '+') ::
      (zeros (2 - (digitText exponent.natAbs).length) ++ digitText exponent.natAbs)) := by
  cases f <;> rfl

theorem number_scientific {s : Nat} (hs : 0 < s) (exponent : Int) (hrest : Delimited rest) :
    number negative (scientific (digitText s) exponent ++ rest) =
      .ok (.float ((Decimal.mk s (exponent + 1 - digitCount s)).toBinary64 negative), rest) := by
  have hcount : (digitText s).length = digitCount s := rfl
  obtain ⟨d, f, hdigits⟩ := List.exists_cons_of_ne_nil (digitText_ne_nil s)
  have hplain : ∀ c ∈ d :: f, isPlainDigit c = true := hdigits ▸ isPlainDigit_digitText
  have hwhole : IsWhole [d] :=
    isWhole_of_head (fun c hc => hplain c (List.mem_cons.mpr (Or.inl (List.mem_singleton.mp hc)))) (by simp)
      (by simpa [hdigits] using head?_digitText hs)
  have hdown : (if exponent < 0 then '-' else '+') = if decide (exponent < 0) then '-' else '+' := by
    simp only [decide_eq_true_eq]
  have hpower : (if decide (exponent < 0) then -(exponent.natAbs : Int) else exponent.natAbs) = exponent := by
    simp only [decide_eq_true_eq]
    split <;> omega
  have hexponent : exponent - f.length = exponent + 1 - digitCount s := by
    rw [← hcount, hdigits, List.length_cons]
    omega
  have hread := number_power negative (decide (exponent < 0)) hwhole
    (fun c hc => hplain c (List.mem_cons_of_mem d hc))
    (isPlainDigit_append (isPlainDigit_zeros (k := 2 - (digitText exponent.natAbs).length))
      (isPlainDigit_digitText (n := exponent.natAbs)))
    (List.append_ne_nil_of_right_ne_nil _ (digitText_ne_nil _)) hrest
  rw [ofDigits_zeros_append, ofDigits_digitText, hpower, hexponent,
    show [d] ++ f = digitText s from hdigits.symm, ofDigits_digitText] at hread
  rw [hdigits, scientific_cons, hdown, ← hread]
  simp only [List.append_assoc, List.cons_append]

/-- A decimal in either notation reads as the number it rounds to. -/
theorem number_text {d : Decimal} (hd : 0 < d.digits) (hrest : Delimited rest) :
    number negative (d.text ++ rest) = .ok (.float (d.toBinary64 negative), rest) := by
  by_cases h : d.IsPositional
  · obtain ⟨whole, part, htext, hwhole, hpart, hzero, hvalue⟩ := text_of_isPositional hd h
    have hplain : ∀ ds, IsDigits ds → ∀ c ∈ ds, isPlainDigit c = true :=
      fun ds hds c hc => (isPlainDigit_eq c).trans (hds.digits c hc)
    rw [htext, List.append_assoc, List.cons_append,
      number_point ⟨hplain _ hwhole, hwhole.nonempty, hzero⟩ (hplain _ hpart) hpart.nonempty hrest, hvalue]
  · obtain ⟨m, e⟩ := d
    obtain ⟨s, k, hs, rfl, hsignificant⟩ := exists_significant hd
    have htext : Decimal.text ⟨s * 10 ^ k, e⟩ = scientific (digitText s) (top ⟨s * 10 ^ k, e⟩ - 1) :=
      (if_neg h).trans (congrArg (scientific · _) hsignificant)
    have hcount : digitCount (s * 10 ^ k) = digitCount s + k := digitCount_mul_pow hs k
    have hsame : top ⟨s * 10 ^ k, e⟩ - digitCount s = e + k := by
      simp only [top, hcount]
      omega
    rw [htext, number_scientific hs _ hrest, Int.sub_add_cancel, hsame, ← toBinary64_shift negative s (e + k) k,
      Int.add_sub_cancel]

/-! ## Numbers as values -/

theorem head_of_number {cs : List Char} {r : Value × List Char} (h : number negative cs = .ok r) :
    ∃ c rest, cs = c :: rest ∧ isPlainDigit c = true := by
  cases cs with
  | nil => cases h
  | cons c rest =>
    refine ⟨c, rest, rfl, ?_⟩
    by_contra hc
    have hne : c ≠ '0' := fun h => hc (h ▸ rfl)
    have hdigits : wholeDigits (c :: rest) = [] := by
      rw [wholeDigits.eq_2 _ fun _ h => hne (List.cons.inj h).1]
      exact takeWhile_eq_nil.mpr (Bool.eq_false_iff.mpr hc)
    simp [number, hdigits] at h

/-- No word starts with a digit, so a number that can be read is read. -/
theorem scalar_of_number {cs : List Char} {r : Value × List Char} (h : number false cs = .ok r) : scalar cs = .ok r := by
  obtain ⟨c, rest, rfl, hc⟩ := head_of_number h
  rw [← h]
  unfold scalar
  split <;> first | rfl | simp_all [isPlainDigit]

theorem scalar_of_negative {cs : List Char} {r : Value × List Char} (h : number true cs = .ok r) :
    scalar ('-' :: cs) = .ok r := by
  obtain ⟨c, rest, rfl, hc⟩ := head_of_number h
  rw [← h]
  unfold scalar
  split <;> first | rfl | simp_all [isPlainDigit]

theorem scalar_signed {cs : List Char} {r : Value × List Char} (h : number negative cs = .ok r) :
    scalar (signText negative ++ cs) = .ok r := by
  cases negative with
  | false => exact scalar_of_number h
  | true => exact scalar_of_negative h

/-- A whole number of no more digits than are read. -/
theorem scalar_intText {n : Int} (hn : (digitText n.natAbs).length ≤ mostDigits) (hrest : Delimited rest) :
    scalar ((intText n).toList ++ rest) = .ok (.int n, rest) := by
  have htext : (intText n).toList = signText (decide (n < 0)) ++ digitText n.natAbs := by
    rw [intText, String.toList_ofList, signText]
    simp only [decide_eq_true_eq]
  have hvalue : (if decide (n < 0) then -(n.natAbs : Int) else n.natAbs) = n := by
    simp only [decide_eq_true_eq]
    split <;> omega
  have hread := scalar_signed (number_digitText (decide (n < 0)) hn hrest)
  rwa [hvalue, ← List.append_assoc, ← htext] at hread

theorem number_zero (hrest : Delimited rest) {p : Fin span} (hp : p.val = 0) :
    number negative ("0.0".toList ++ rest) = .ok (.float (.finite negative p), rest) := by
  refine (number_point isWhole_zero isPlainDigit_zero (by decide) hrest).trans ?_
  rw [toBinary64_eq, if_pos (by decide), (ofRatio_zero negative).mpr hp]

theorem scalar_numberLine (x : Binary64) (hrest : Delimited rest) :
    scalar ((numberLine x).toList ++ rest) = .ok (.float x, rest) := by
  cases x with
  | nan => rfl
  | infinite negative => cases negative <;> rfl
  | finite negative p =>
    have htext : (numberLine (.finite negative p)).toList = shortestText (.finite negative p) := String.toList_ofList
    rw [htext, shortestText, List.append_assoc]
    refine scalar_signed ?_
    by_cases hp : p.val = 0
    · rw [if_pos hp]
      exact number_zero hrest hp
    · have hpos : 0 < p.val := Nat.pos_of_ne_zero hp
      rw [if_neg hp, number_text (digits_shortest hpos) hrest, toBinary64_shortest negative hpos]

end ShaderLoom.Json
