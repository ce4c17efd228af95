/-
  ShaderLoom.Proofs.Number.Pointed — which literals are an optional sign, digits, a point and digits.

  A finite number is written so in every notation that a literal takes: positional decimals have
  their point (`text_of_isPositional`), a text with an exponent gives way to seventeen decimals
  (`plain_of_exponent`), and fixed decimals have theirs (`fixedDigits_parts`). The words for an
  infinite number and for nan have a letter. So a literal has this form exactly when its number is
  finite (`isPointed_iff`).
-/

import ShaderLoom.Literal
import ShaderLoom.Proofs.Number.Digits
import ShaderLoom.Proofs.Number.Shortest

namespace ShaderLoom

open Decimal Binary64

/-- A row of decimal digits that is not empty. -/
structure IsDigits (ds : List Char) : Prop where
  nonempty : ds ≠ []
  digits : ∀ c ∈ ds, c.isDigit = true

/-- Digits, a point and digits. -/
def PointedDigits (cs : List Char) : Prop := ∃ whole part, cs = whole ++ '.' :: part ∧ IsDigits whole ∧ IsDigits part

/-- The same behind a minus sign or without one: `-?[0-9]+.[0-9]+`. -/
def Literal.IsPointed (cs : List Char) : Prop := ∃ negative ds, cs = signText negative ++ ds ∧ PointedDigits ds

variable {a f ds : List Char} {negative : Bool} {p : Fin span}

/-! ## Rows of digits -/

theorem isDigits_digitText (n : Nat) : IsDigits (digitText n) :=
  ⟨digitText_ne_nil n, Reading.isDigit_digitText⟩

theorem isDigits_zero : IsDigits ['0'] := ⟨List.cons_ne_nil _ _, List.forall_mem_singleton.mpr rfl⟩

theorem IsDigits.append (h : IsDigits ds) (hf : ∀ c ∈ f, c.isDigit = true) : IsDigits (ds ++ f) :=
  ⟨List.append_ne_nil_of_left_ne_nil h.nonempty _, List.forall_mem_append.mpr ⟨h.digits, hf⟩⟩

theorem IsDigits.behind (hf : ∀ c ∈ f, c.isDigit = true) (h : IsDigits ds) : IsDigits (f ++ ds) :=
  ⟨List.append_ne_nil_of_right_ne_nil _ h.nonempty, List.forall_mem_append.mpr ⟨hf, h.digits⟩⟩

theorem point_not_mem (hf : ∀ c ∈ f, c.isDigit = true) : '.' ∉ f := fun h => absurd (hf '.' h) (by decide)

/-! ## Notations with a point -/

theorem pointedDigits_zero : PointedDigits "0.0".toList := ⟨['0'], ['0'], rfl, isDigits_zero, isDigits_zero⟩

/-- The digits of a number with a point among them: no zero is put before them but one alone, and
the zeros put behind them are so many powers of ten. -/
theorem positional_parts {s : Nat} (hs : 0 < s) (point : Int) :
    ∃ whole part, ∃ k : Nat, positional (digitText s) point = whole ++ '.' :: part ∧ IsDigits whole ∧ IsDigits part ∧
      (whole.head? = some '0' → whole = ['0']) ∧ Reading.ofDigits (whole ++ part) = s * 10 ^ k ∧
      point - digitCount s = k - part.length := by
  have hcount : (digitText s).length = digitCount s := rfl
  have hdigits := isDigits_digitText s
  have hhead := head?_digitText hs
  have hvalue : Reading.ofDigits (digitText s) = s * 10 ^ 0 := by
    rw [Reading.ofDigits_digitText, Nat.pow_zero, Nat.mul_one]
  cases point with
  | ofNat p =>
    rcases Nat.eq_zero_or_pos p with rfl | hp
    · refine ⟨['0'], digitText s, 0, rfl, isDigits_zero, hdigits, fun _ => rfl, ?_, rfl⟩
      exact (Reading.ofDigits_zeros_append 1 _).trans hvalue
    rcases Nat.lt_or_ge p (digitText s).length with hshort | hlong
    · have htext : positional (digitText s) (.ofNat p) = (digitText s).take p ++ '.' :: (digitText s).drop p := by
        rw [positional, if_neg (Nat.ne_of_gt hp), if_neg (Nat.not_le.mpr hshort)]
      have htake : ((digitText s).take p).head? = (digitText s).head? := by
        rw [List.head?_take, if_neg (Nat.ne_of_gt hp)]
      refine ⟨_, _, 0, htext, ⟨?_, fun c hc => hdigits.digits c (List.mem_of_mem_take hc)⟩,
        ⟨?_, fun c hc => hdigits.digits c (List.mem_of_mem_drop hc)⟩, fun h => absurd (htake ▸ h) hhead, ?_, ?_⟩
      · simp [hdigits.nonempty, Nat.ne_of_gt hp]
      · exact fun h => absurd (List.drop_eq_nil_iff.mp h) (Nat.not_le.mpr hshort)
      · rw [List.take_append_drop, hvalue]
      · rw [List.length_drop, hcount, Int.ofNat_eq_natCast]
        omega
    · obtain ⟨k, rfl⟩ := Nat.exists_eq_add_of_le hlong
      have hzeros : zeros k ++ ['0'] = zeros (k + 1) := List.replicate_succ'.symm
      have htext : positional (digitText s) (.ofNat ((digitText s).length + k)) =
          (digitText s ++ zeros k) ++ '.' :: ['0'] := by
        rw [positional, if_neg (Nat.ne_of_gt hp), if_pos hlong, Nat.add_sub_cancel_left]
      refine ⟨_, _, k + 1, htext, hdigits.append isDigit_zeros, isDigits_zero, fun h => absurd h ?_, ?_, ?_⟩
      · rwa [List.head?_append_of_ne_nil _ hdigits.nonempty]
      · rw [List.append_assoc, hzeros, Reading.ofDigits_append_zeros, Reading.ofDigits_digitText]
      · rw [hcount, Int.ofNat_eq_natCast, List.length_singleton]
        omega
  | negSucc p =>
    refine ⟨['0'], zeros (p + 1) ++ digitText s, 0, rfl, isDigits_zero, .behind isDigit_zeros hdigits, fun _ => rfl,
      ?_, ?_⟩
    · exact (Reading.ofDigits_zeros_append 1 _).trans ((Reading.ofDigits_zeros_append _ _).trans hvalue)
    · rw [List.length_append, zeros, List.length_replicate, hcount, Int.negSucc_eq]
      omega

theorem fixedDigits_zero (n : Nat) : IsDigits (fixedDigits n 0) := isDigits_digitText _

/-- Fixed decimals are as many digits behind the point as were asked for, and all digits together
are the number of units. -/
theorem fixedDigits_parts (n : Nat) {places : Nat} (h : 0 < places) :
    ∃ whole part, fixedDigits n places = whole ++ '.' :: part ∧ IsDigits whole ∧ IsDigits part ∧
      part.length = places ∧ Reading.ofDigits (whole ++ part) = n := by
  have hpow : 0 < 10 ^ places := Nat.pow_pos (by decide)
  have hcount : (digitText (n % 10 ^ places)).length ≤ places := (digitCount_le_iff h).mpr (Nat.mod_lt _ hpow)
  have hlength : (zeros (places - (digitText (n % 10 ^ places)).length) ++ digitText (n % 10 ^ places)).length =
      places := by
    rw [List.length_append, zeros, List.length_replicate]
    omega
  refine ⟨_, _, if_neg (Nat.ne_of_gt h), isDigits_digitText _, .behind isDigit_zeros (isDigits_digitText _), hlength, ?_⟩
  refine (Reading.ofDigits_append_pow _ _).trans ?_
  rw [Reading.ofDigits_zeros_append, Reading.ofDigits_digitText, Reading.ofDigits_digitText]
  exact (congrArg (fun l => n / 10 ^ places * 10 ^ l + n % 10 ^ places) hlength).trans (Nat.div_add_mod' n _)

theorem pointedDigits_fixedDigits (n : Nat) {places : Nat} (h : 0 < places) : PointedDigits (fixedDigits n places) := by
  obtain ⟨whole, part, htext, hwhole, hpart, -, -⟩ := fixedDigits_parts n h
  exact ⟨whole, part, htext, hwhole, hpart⟩

/-- The point stays within four zeros before the digits and sixteen places after their start. -/
def Decimal.IsPositional (d : Decimal) : Prop := -4 < d.top ∧ d.top ≤ 16

/-- A decimal in positional form: its digits, with zeros or without, put together with a point. -/
theorem text_of_isPositional {d : Decimal} (hd : 0 < d.digits) (h : d.IsPositional) :
    ∃ whole part, d.text = whole ++ '.' :: part ∧ IsDigits whole ∧ IsDigits part ∧
      (whole.head? = some '0' → whole = ['0']) ∧
      ∀ negative, (Decimal.mk (Reading.ofDigits (whole ++ part)) (0 - part.length)).toBinary64 negative =
        d.toBinary64 negative := by
  obtain ⟨m, e⟩ := d
  obtain ⟨s, j, hs, rfl, hsignificant⟩ := exists_significant hd
  have htext : Decimal.text ⟨s * 10 ^ j, e⟩ = positional (digitText s) (top ⟨s * 10 ^ j, e⟩) :=
    (if_pos h).trans (congrArg (positional · _) hsignificant)
  obtain ⟨whole, part, k, hparts, hwhole, hpart, hzero, hvalue, hexponent⟩ :=
    positional_parts hs (top ⟨s * 10 ^ j, e⟩)
  refine ⟨whole, part, htext.trans hparts, hwhole, hpart, hzero, fun negative => ?_⟩
  have hcount : digitCount (s * 10 ^ j) = digitCount s + j := digitCount_mul_pow hs j
  have hsame : (0 : Int) - part.length = (e + j) - k := by
    simp only [top, hcount] at hexponent
    omega
  rw [hvalue, hsame, toBinary64_shift, ← toBinary64_shift negative s (e + j) j, Int.add_sub_cancel]

theorem exponent_mem_text {d : Decimal} (h : ¬d.IsPositional) : 'e' ∈ d.text := by
  have htext : d.text = scientific (significant d.digits) (d.top - 1) := if_neg h
  rw [htext]
  exact List.mem_append_right _ List.mem_cons_self

theorem PointedDigits.no_exponent (h : PointedDigits ds) (negative : Bool) : 'e' ∉ signText negative ++ ds := by
  obtain ⟨whole, part, rfl, hwhole, hpart⟩ := h
  simp only [List.mem_append, List.mem_cons, not_or]
  refine ⟨?_, fun h => absurd (hwhole.digits _ h) (by decide), by decide,
    fun h => absurd (hpart.digits _ h) (by decide)⟩
  cases negative <;> decide

/-! ## Points put in and zeros taken off -/

namespace Literal

/-- Behind a point there is always a digit. -/
theorem pointed_point (hf : ∀ c ∈ f, c.isDigit = true) :
    pointed (a ++ '.' :: f) = a ++ '.' :: (if f = [] then ['0'] else f) := by
  have hcontains : (a ++ '.' :: f).contains '.' = true := by simp
  unfold pointed
  simp only [hcontains, if_true]
  by_cases hnil : f = []
  · subst hnil
    rw [if_pos List.getLast?_concat, if_pos rfl, List.append_assoc]
    rfl
  · have hlast : (a ++ '.' :: f).getLast? ≠ some '.' := by
      rw [List.getLast?_append_of_ne_nil _ (List.cons_ne_nil _ _), List.getLast?_cons_of_ne_nil hnil]
      exact fun h => point_not_mem hf (List.mem_of_getLast? h)
    rw [if_neg hlast, if_neg hnil]

/-- Zeros are taken off as far as the point. -/
theorem trimEnd_point : Text.trimEnd (· == '0') (a ++ '.' :: f) = a ++ '.' :: Text.trimEnd (· == '0') f := by
  rw [Text.trimEnd, Text.trimEnd, List.reverse_append, List.reverse_cons, List.append_assoc, List.dropWhile_append]
  split
  · rename_i hempty
    rw [List.isEmpty_iff.mp hempty]
    simp
  · simp

theorem isDigit_trimEnd (hf : ∀ c ∈ f, c.isDigit = true) : ∀ c ∈ Text.trimEnd (· == '0') f, c.isDigit = true := by
  intro c hc
  rw [Text.trimEnd, List.mem_reverse] at hc
  exact hf c (List.mem_reverse.mp ((List.dropWhile_suffix _).subset hc))

/-- A text that has its point is left as it is. -/
theorem pointed_of_pointedDigits {sign : List Char} (h : PointedDigits ds) : pointed (sign ++ ds) = sign ++ ds := by
  obtain ⟨whole, part, rfl, -, hpart⟩ := h
  rw [← List.append_assoc, pointed_point hpart.digits, if_neg hpart.nonempty]

/-! ## Literals -/

/-- A plain form without an exponent is the literal. -/
theorem plain_of_pointedDigits {x : Binary64} (h : x.shortestText = signText negative ++ ds) (hds : PointedDigits ds) :
    plain x = signText negative ++ ds := by
  have hexponent : ¬x.shortestText.contains 'e' = true := by
    rw [h]
    simpa using hds.no_exponent negative
  rw [plain, if_neg hexponent, h, pointed_of_pointedDigits hds]

theorem plain_zero (hp : p.val = 0) : plain (.finite negative p) = signText negative ++ "0.0".toList := by
  refine plain_of_pointedDigits ?_ pointedDigits_zero
  rw [shortestText, if_pos hp]

theorem plain_of_isPositional (negative : Bool) (hp : 0 < p.val) (h : (shortest p).IsPositional) :
    ∃ whole part, plain (.finite negative p) = signText negative ++ (whole ++ '.' :: part) ∧
      IsDigits whole ∧ IsDigits part ∧
      (Decimal.mk (Reading.ofDigits (whole ++ part)) (0 - part.length)).toBinary64 negative = .finite negative p := by
  obtain ⟨whole, part, htext, hwhole, hpart, -, hvalue⟩ := text_of_isPositional (digits_shortest hp) h
  refine ⟨whole, part, plain_of_pointedDigits ?_ ⟨whole, part, rfl, hwhole, hpart⟩, hwhole, hpart, ?_⟩
  · rw [shortestText, if_neg (Nat.ne_of_gt hp), htext]
  · rw [hvalue, toBinary64_shortest negative hp]

/-- What is left of the decimals without the zeros at their end. -/
def trimmed (part : List Char) : List Char :=
  if Text.trimEnd (· == '0') part = [] then ['0'] else Text.trimEnd (· == '0') part

theorem isDigits_trimmed (hf : ∀ c ∈ f, c.isDigit = true) : IsDigits (trimmed f) := by
  rw [trimmed]
  split
  · exact isDigits_zero
  · rename_i hne
    exact ⟨hne, isDigit_trimEnd hf⟩

/-- A number of units of 10^-17 with its decimals, one at least, but no zeros behind them. -/
def shortened (n : Nat) : List Char := pointed (Text.trimEnd (· == '0') (fixedDigits n 17))

theorem shortened_parts (n : Nat) : ∃ whole part, fixedDigits n 17 = whole ++ '.' :: part ∧
    shortened n = whole ++ '.' :: trimmed part ∧ IsDigits whole ∧ IsDigits part ∧ part.length = 17 ∧
    Reading.ofDigits (whole ++ part) = n := by
  have hplaces : 0 < 17 := by decide
  obtain ⟨whole, part, htext, hwhole, hpart, hlength, hvalue⟩ := fixedDigits_parts n hplaces
  refine ⟨whole, part, htext, ?_, hwhole, hpart, hlength, hvalue⟩
  rw [shortened, htext, trimEnd_point, pointed_point (isDigit_trimEnd hpart.digits)]
  rfl

/-- A plain form with an exponent gives way to seventeen decimals. -/
theorem plain_of_exponent (hp : 0 < p.val) (h : ¬(shortest p).IsPositional) :
    plain (.finite negative p) = signText negative ++ shortened (roundHalfEven (units p * 10 ^ 17) perOne) := by
  obtain ⟨whole, part, htext, hshortened, -, hpart, -⟩ :=
    shortened_parts (roundHalfEven (units p * 10 ^ 17) perOne)
  have hexponent : (shortestText (.finite negative p)).contains 'e' = true := by
    rw [shortestText, if_neg (Nat.ne_of_gt hp)]
    simpa using Or.inr (exponent_mem_text h)
  have hfixed : fixedText 17 (.finite negative p) = (signText negative ++ whole) ++ '.' :: part := by
    rw [List.append_assoc, ← htext]
    rfl
  rw [plain, if_pos hexponent, hfixed, trimEnd_point, pointed_point (isDigit_trimEnd hpart.digits), hshortened,
    List.append_assoc]
  rfl

theorem plain_pointed (negative : Bool) (p : Fin span) :
    ∃ ds, plain (.finite negative p) = signText negative ++ ds ∧ PointedDigits ds := by
  rcases Nat.eq_zero_or_pos p.val with hp | hp
  · exact ⟨_, plain_zero hp, pointedDigits_zero⟩
  by_cases h : (shortest p).IsPositional
  · obtain ⟨whole, part, htext, hwhole, hpart, -⟩ := plain_of_isPositional negative hp h
    exact ⟨_, htext, whole, part, rfl, hwhole, hpart⟩
  · obtain ⟨whole, part, -, hshortened, hwhole, hpart, -⟩ :=
      shortened_parts (roundHalfEven (units p * 10 ^ 17) perOne)
    exact ⟨_, plain_of_exponent hp h, whole, _, hshortened, hwhole, isDigits_trimmed hpart.digits⟩

theorem isPointed_plain (negative : Bool) (p : Fin span) : IsPointed (plain (.finite negative p)) :=
  ⟨negative, plain_pointed negative p⟩

theorem isPointed_fixed (decimals : Int) (negative : Bool) (p : Fin span) :
    IsPointed (fixed decimals (.finite negative p)) := by
  rw [fixed]
  split
  · exact ⟨negative, _, rfl, pointedDigits_fixedDigits _ (by omega)⟩
  · rw [fixedText, List.append_assoc]
    exact ⟨negative, _, rfl, _, _, rfl, fixedDigits_zero _, isDigits_zero⟩

theorem mem_pointed {c : Char} {cs : List Char} (h : c ∈ cs) : c ∈ pointed cs := by
  have hpoint : c ∈ if cs.contains '.' then cs else cs ++ ['.', '0'] := by
    split
    · exact h
    · exact List.mem_append_left _ h
  have hdigit : ∀ ds : List Char, c ∈ ds → c ∈ if ds.getLast? = some '.' then ds ++ ['0'] else ds := by
    intro ds hds
    split
    · exact List.mem_append_left _ hds
    · exact hds
  exact hdigit _ hpoint

theorem IsPointed.not_letter {cs : List Char} (h : IsPointed cs) : 'n' ∉ cs := by
  obtain ⟨negative, _, rfl, whole, part, rfl, hwhole, hpart⟩ := h
  intro hn
  rcases List.mem_append.mp hn with hn | hn
  · cases negative <;> exact absurd hn (by decide)
  rcases List.mem_append.mp hn with hn | hn
  · exact absurd (hwhole.digits _ hn) (by decide)
  rcases List.mem_cons.mp hn with hn | hn
  · exact absurd hn (by decide)
  · exact absurd (hpart.digits _ hn) (by decide)

/-- The words for what is no finite number have a letter, whatever is put behind them. -/
theorem letter_mem_literal {x : Binary64} (h : ∀ negative p, x ≠ .finite negative p) (decimals : Option Int) :
    'n' ∈ (ofNumber x decimals).toList := by
  have hword : 'n' ∈ x.shortestText ∧ 'e' ∉ x.shortestText ∧ ∀ places, 'n' ∈ x.fixedText places := by
    cases x with
    | nan => exact ⟨by decide, by decide, fun _ => (by decide : 'n' ∈ "nan".toList)⟩
    | infinite negative =>
      refine ⟨?_, ?_, fun _ => List.mem_append_right _ (by decide)⟩
      · exact List.mem_append_right _ (by decide)
      · cases negative <;> decide
    | finite negative p => exact absurd rfl (h negative p)
  obtain ⟨hshortest, hexponent, hfixed⟩ := hword
  cases decimals with
  | none =>
    refine String.toList_ofList ▸ mem_pointed ?_
    rw [if_neg (by simpa using hexponent)]
    exact hshortest
  | some d =>
    refine String.toList_ofList ▸ ?_
    show 'n' ∈ if d > 0 then x.fixedText d.toNat else x.fixedText 0 ++ ['.', '0']
    split
    · exact hfixed _
    · exact List.mem_append_left _ (hfixed 0)

/-- A literal is an optional sign, digits, a point and digits exactly when its number is finite. -/
theorem isPointed_iff {x : Binary64} {decimals : Option Int} :
    IsPointed (ofNumber x decimals).toList ↔ ∃ negative p, x = .finite negative p := by
  constructor
  · intro h
    refine Classical.byContradiction fun hx => h.not_letter (letter_mem_literal (fun negative p hp => ?_) decimals)
    exact hx ⟨negative, p, hp⟩
  · rintro ⟨negative, p, rfl⟩
    cases decimals with
    | none => exact String.toList_ofList ▸ isPointed_plain negative p
    | some d => exact String.toList_ofList ▸ isPointed_fixed d negative p

end Literal

end ShaderLoom
