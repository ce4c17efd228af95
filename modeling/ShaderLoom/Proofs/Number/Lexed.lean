/-
  ShaderLoom.Proofs.Number.Lexed — literals of finite numbers and the tokens they are cut into.

  A finite number has a literal, and it is a sign where the number has one, digits, a point and
  digits (`literal_parts`); with a number of decimals there are as many of them, or the decimal zero
  alone when none are asked for. Digits with a point between them are one number of the source
  (`first_pointed`), so the literal is cut into that token, behind a minus mark where there is a
  sign (`tokenize_pointed`). `literal_lexed` is both together.
-/

import ShaderLoom.Proofs.Lexeme.Transport
import ShaderLoom.Proofs.Number.Pointed

namespace ShaderLoom

open Decimal Binary64

variable {negative : Bool} {p : Fin span} {whole part : List Char} {decimals : Option Int}

/-! ## Text -/

namespace Literal

/-- The digits behind the point when a number of decimals is asked for. -/
def HasDecimals (decimals : Int) (part : List Char) : Prop :=
  if 0 < decimals then part.length = decimals.toNat else part = ['0']

theorem fixed_parts (decimals : Int) (negative : Bool) (p : Fin span) :
    ∃ whole part, fixed decimals (.finite negative p) = signText negative ++ (whole ++ '.' :: part) ∧
      IsDigits whole ∧ IsDigits part ∧ HasDecimals decimals part := by
  by_cases hd : 0 < decimals
  · obtain ⟨whole, part, htext, hwhole, hpart, hlength, -⟩ :=
      fixedDigits_parts (roundHalfEven (units p * Nat.pow 10 decimals.toNat) perOne) (by omega : 0 < decimals.toNat)
    have hfixed : fixed decimals (.finite negative p) = signText negative ++ (whole ++ '.' :: part) := by
      rw [fixed, if_pos hd, fixedText, htext]
    exact ⟨whole, part, hfixed, hwhole, hpart, (if_pos hd).mpr hlength⟩
  · have hfixed : fixed decimals (.finite negative p) = signText negative ++
        (fixedDigits (roundHalfEven (units p * Nat.pow 10 0) perOne) 0 ++ ['.', '0']) := by
      rw [fixed, if_neg hd, fixedText, List.append_assoc]
    exact ⟨_, _, hfixed, fixedDigits_zero _, isDigits_zero, (if_neg hd).mpr rfl⟩

/-- Every finite number has a literal, and it has the decimals asked for. -/
theorem literal_parts (negative : Bool) (p : Fin span) (h : ∀ d ∈ decimals, d < 0x80000000) :
    ∃ whole part, ofValue (.float (.finite negative p)) decimals =
        .ok (String.ofList (signText negative ++ (whole ++ '.' :: part))) ∧
      IsDigits whole ∧ IsDigits part ∧ ∀ d ∈ decimals, HasDecimals d part := by
  cases decimals with
  | none =>
    obtain ⟨_, htext, whole, part, rfl, hwhole, hpart⟩ := plain_pointed negative p
    refine ⟨whole, part, ?_, hwhole, hpart, nofun⟩
    rw [← htext]
    rfl
  | some d =>
    obtain ⟨whole, part, htext, hwhole, hpart, hdecimals⟩ := fixed_parts d negative p
    have hcheck : checkDecimals (some d) = .ok () := if_pos (h d rfl)
    refine ⟨whole, part, ?_, hwhole, hpart, ?_⟩
    · rw [ofValue, hcheck, ← htext]
      rfl
    · rintro _ ⟨⟩
      exact hdecimals

end Literal

/-! ## Tokens -/

namespace Lexeme

/-- Digits, a point and digits are read as one number. -/
theorem number?_pointed (hwhole : IsDigits whole) (hpart : IsDigits part) :
    number? (whole ++ '.' :: part) = some (whole ++ '.' :: part) := by
  have hrun : part.takeWhile Text.isDigit = part := by
    have := takeWhile_append_eq_left (r := []).mpr ⟨fun c hc => Reading.isDigit_of_ascii (hpart.digits c hc), rfl⟩
    rwa [List.append_nil] at this
  have hmantissa : mantissa? (whole ++ '.' :: part) = some (whole ++ '.' :: part) := by
    rw [mantissa?_point fun c hc => Reading.isDigit_of_ascii (hwhole.digits c hc), hrun, if_neg (fun h => hpart.nonempty h.2)]
  rw [number?, hmantissa, Option.map_some, List.drop_length]
  simp [exponent, suffix]

theorem first_pointed {c : Char} (hwhole : IsDigits (c :: whole)) (hpart : IsDigits part) :
    first c (whole ++ '.' :: part) = (.number, c :: whole ++ '.' :: part) := by
  have hc := hwhole.digits c List.mem_cons_self
  have hnumber := number?_pointed hwhole hpart
  rw [List.cons_append] at hnumber
  rw [first_of_numeral (Or.inl (Reading.isDigit_of_ascii hc)) (Reading.not_blank_of_ascii hc), hnumber]
  rfl

end Lexeme

namespace Token

open ShaderLoom.Lexeme

theorem scan_pointed (offset : Nat) (hwhole : IsDigits whole) (hpart : IsDigits part) :
    scan 0 offset (whole ++ '.' :: part) =
      [⟨.number, String.ofList (whole ++ '.' :: part), offset, offset + (whole ++ '.' :: part).length⟩] := by
  obtain ⟨c, rest, rfl⟩ := List.exists_cons_of_ne_nil hwhole.nonempty
  have hfirst := first_pointed hwhole hpart
  rw [List.cons_append] at hfirst ⊢
  rw [scan_cons, hfirst, List.drop_length]
  rfl

/-- The minus mark before a literal with a sign. -/
def signTokens (negative : Bool) : List Token := if negative then [⟨.mark, "-", 0, 1⟩] else []

theorem tokenize_pointed (negative : Bool) (hwhole : IsDigits whole) (hpart : IsDigits part) :
    tokenize (String.ofList (signText negative ++ (whole ++ '.' :: part))) = signTokens negative ++
      [⟨.number, String.ofList (whole ++ '.' :: part), (signText negative).length,
        (signText negative).length + (whole ++ '.' :: part).length⟩] := by
  rw [tokenize, String.toList_ofList]
  cases negative with
  | false => exact scan_pointed 0 hwhole hpart
  | true =>
    have hmark : first '-' (whole ++ '.' :: part) = (.mark, ['-']) := first_of_plain (by decide) _
    show scan 0 0 ('-' :: (whole ++ '.' :: part)) = _
    rw [scan_cons, hmark]
    exact congrArg (_ :: ·) (scan_pointed 1 hwhole hpart)

end Token

/-! ## Both -/

namespace Literal

/-- A finite number has a literal `-?[0-9]+.[0-9]+` with the decimals asked for, and its tokens are one
number and, before it, the minus mark of a negative one. -/
theorem literal_lexed (negative : Bool) (p : Fin span) (h : ∀ d ∈ decimals, d < 0x80000000) :
    ∃ whole part, ofValue (.float (.finite negative p)) decimals =
        .ok (String.ofList (signText negative ++ (whole ++ '.' :: part))) ∧
      IsDigits whole ∧ IsDigits part ∧ (∀ d ∈ decimals, HasDecimals d part) ∧
      Token.tokenize (String.ofList (signText negative ++ (whole ++ '.' :: part))) =
        Token.signTokens negative ++ [⟨.number, String.ofList (whole ++ '.' :: part), (signText negative).length,
          (signText negative).length + (whole ++ '.' :: part).length⟩] := by
  obtain ⟨whole, part, htext, hwhole, hpart, hdecimals⟩ := literal_parts negative p h
  exact ⟨whole, part, htext, hwhole, hpart, hdecimals, Token.tokenize_pointed negative hwhole hpart⟩

/-- Minus an eighth with two decimals: the tie goes to the even digit. -/
theorem eighth_lexed : (∀ d ∈ some (2 : Int), d < 0x80000000) ∧
    ofValue (.float (.finite true ⟨1020 * rowLength, by decide⟩)) (some 2) = .ok "-0.12" ∧
    Token.tokenize "-0.12" = [⟨.mark, "-", 0, 1⟩, ⟨.number, "0.12", 1, 5⟩] := by
  have hfew : ∀ d ∈ some (2 : Int), d < 0x80000000 := by
    rintro _ ⟨⟩
    decide
  have hvalue : ofValue (.float (.finite true ⟨1020 * rowLength, by decide⟩)) (some 2) = .ok "-0.12" := by
    have hnumber : ofNumber (.finite true ⟨1020 * rowLength, by decide⟩) (some 2) = "-0.12" := by decide +kernel
    rw [← hnumber]
    rfl
  obtain ⟨whole, part, htext, -, -, -, htokens⟩ := literal_lexed true ⟨1020 * rowLength, by decide⟩ hfew
  have hchars : '-' :: (whole ++ '.' :: part) = "-0.12".toList := by
    rw [← String.toList_ofList (l := '-' :: _)]
    exact congrArg String.toList (Except.ok.inj (htext.symm.trans hvalue))
  have hdigits : whole ++ '.' :: part = "0.12".toList := (List.cons.inj hchars).2
  rw [hdigits] at htokens
  exact ⟨hfew, hvalue, htokens⟩

end Literal

end ShaderLoom
