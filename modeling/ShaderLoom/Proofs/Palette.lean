/-
  ShaderLoom.Proofs.Palette — the constants of a palette, line by line and channel by channel.

  A channel between zero and one is written with two decimals (`isHundredth_literal`): the text is a
  number of hundredths, at most half a hundredth from the channel, and never beyond zero or one. More
  of a channel is never fewer hundredths (`hundredths_mono`). A minus zero keeps its sign and is worth
  zero still. The constants stand one on each line, in order, and can be told apart at the line ends,
  for names have none (`constants_rounded`).
-/

import Mathlib.Algebra.Order.Field.Basic
import Mathlib.Algebra.Order.Ring.Rat
import Mathlib.Tactic.FieldSimp
import Mathlib.Tactic.Linarith
import ShaderLoom.Palette
import ShaderLoom.Proofs.Color
import ShaderLoom.Proofs.Number.Numeral
import ShaderLoom.Proofs.Number.Reread

namespace ShaderLoom

open Decimal Binary64

/-! ## Worth -/

/-- What a finite number is worth. -/
def Binary64.worth? (x : Binary64) : Option ℚ :=
  match x.extent? with
  | some (.at u) => some (u / perOne)
  | _ => none

def Decimal.worth (d : Decimal) : ℚ := d.numerator / d.denominator

/-- What a decimal text is worth. -/
def Literal.worth? (text : List Char) : Option ℚ :=
  let (negative, rest) := Reading.splitSign text
  (Reading.decimal? rest).map fun d => if negative then -d.worth else d.worth

namespace Literal

variable {x y : Binary64} {negative : Bool} {p : Fin span}

/-- Two decimals behind the point. -/
def HasHundredths (text : List Char) : Prop :=
  ∃ negative whole part, text = signText negative ++ (whole ++ '.' :: part) ∧ IsDigits whole ∧ IsDigits part ∧
    part.length = 2

/-- The hundredths nearest to a number of units. -/
def hundredths (u : Nat) : Nat := roundHalfEven (u * 10 ^ 2) perOne

theorem hundredths_mono {u v : Nat} (h : u ≤ v) : hundredths u ≤ hundredths v :=
  roundHalfEven_mono perOne_pos perOne_pos (Nat.mul_le_mul_right _ (Nat.mul_le_mul_right _ h))

theorem hundredths_le {u : Nat} (h : u ≤ perOne) : hundredths u ≤ 100 := by
  have hscaled : ∀ d, u ≤ d → u * 10 ^ 2 ≤ 100 * d := by
    intro d hd
    omega
  exact roundHalfEven_le perOne_pos (hscaled _ h)

theorem hundredths_near (u : Nat) : |(hundredths u : ℚ) / 100 - u / perOne| ≤ 1 / 200 := by
  -- For any denominator first: the units that make one are too many to be written out.
  have hclose : ∀ n d : Nat, 0 < d → 2 * (n * d) ≤ 2 * (u * 10 ^ 2) + d → 2 * (u * 10 ^ 2) ≤ 2 * (n * d) + d →
      |(n : ℚ) / 100 - u / d| ≤ 1 / 200 := by
    intro n d hd hbelow habove
    have hd' : (0 : ℚ) < d := Nat.cast_pos.mpr hd
    have hbelow' : 2 * ((n : ℚ) * d) ≤ 2 * (u * 10 ^ 2) + d := by exact_mod_cast hbelow
    have habove' : 2 * ((u : ℚ) * 10 ^ 2) ≤ 2 * (n * d) + d := by exact_mod_cast habove
    have hdiff : (n : ℚ) / 100 - u / d = (n * d - u * 100) / (100 * d) := by
      field_simp
    rw [hdiff, abs_le, le_div_iff₀ (by positivity), div_le_iff₀ (by positivity)]
    constructor <;> linarith
  obtain ⟨hbelow, habove⟩ := roundHalfEven_close (u * 10 ^ 2) perOne_pos
  exact hclose _ _ perOne_pos hbelow habove

theorem worth?_fixed (negative : Bool) (p : Fin span) :
    HasHundredths (ofNumber (.finite negative p) (some 2)).toList ∧
      worth? (ofNumber (.finite negative p) (some 2)).toList =
        some (if negative then -(hundredths (units p) / 100 : ℚ) else hundredths (units p) / 100) := by
  obtain ⟨whole, part, htext, hwhole, hpart, hlength, hvalue⟩ :=
    fixedDigits_parts (hundredths (units p)) (by decide : 0 < 2)
  have hliteral : (ofNumber (.finite negative p) (some 2)).toList = signText negative ++ (whole ++ '.' :: part) := by
    rw [← htext]
    exact String.toList_ofList
  have hworth : (Decimal.mk (Reading.ofDigits (whole ++ part)) (0 - part.length)).worth =
      (hundredths (units p) : ℚ) / 100 := by
    have hnumerator : ∀ n, numerator ⟨n, 0 - (2 : Nat)⟩ = n := fun n => Nat.mul_one n
    have hdenominator : ∀ n, denominator ⟨n, 0 - (2 : Nat)⟩ = 100 := fun _ => rfl
    rw [hvalue, hlength, Decimal.worth, hnumerator, hdenominator, Nat.cast_ofNat]
  rw [hliteral]
  refine ⟨⟨negative, whole, part, rfl, hwhole, hpart, hlength⟩, ?_⟩
  rw [worth?, Reading.splitSign_signText negative hwhole]
  show Option.map _ (Reading.decimal? (whole ++ '.' :: part)) = _
  rw [Reading.decimal?_pointed hwhole hpart, Option.map_some, hworth]

/-- A channel and its literal, counted in units and in hundredths. A minus zero is none of both. -/
theorem exists_hundredths (h : x.InUnitRange) : ∃ u : Nat, u ≤ perOne ∧ x.worth? = some (u / perOne : ℚ) ∧
    HasHundredths (ofNumber x (some 2)).toList ∧
    worth? (ofNumber x (some 2)).toList = some (hundredths u / 100 : ℚ) := by
  obtain ⟨u, hx, hleast, hgreatest⟩ := h
  cases x with
  | nan => cases hx
  | infinite negative => cases negative <;> cases hx
  | finite negative p =>
    obtain ⟨hdecimals, hworth⟩ := worth?_fixed negative p
    cases negative with
    | false =>
      cases hx
      exact ⟨units p, Int.ofNat_le.mp hgreatest, rfl, hdecimals, hworth⟩
    | true =>
      cases hx
      have hzero : units p = 0 := by omega
      have hnone : hundredths 0 = 0 := (roundHalfEven_eq_zero_iff perOne_pos).mpr (Nat.zero_le _)
      refine ⟨0, Nat.zero_le _, ?_, hdecimals, ?_⟩
      · rw [Binary64.worth?, extent?, hzero]
        simp only [Nat.cast_zero, neg_zero, Int.cast_zero]
      · rw [hworth, hzero, hnone, Nat.cast_zero, zero_div, neg_zero, ite_self]

/-- Two decimals that are worth a number from zero to one, at most half a hundredth off. -/
structure IsHundredth (x : Binary64) (text : List Char) : Prop where
  decimals : HasHundredths text
  near : ∃ u v, x.worth? = some u ∧ worth? text = some v ∧ 0 ≤ v ∧ v ≤ 1 ∧ |v - u| ≤ 1 / 200

theorem isHundredth_literal (h : x.InUnitRange) : IsHundredth x (ofNumber x (some 2)).toList := by
  obtain ⟨u, hu, hworth, hdecimals, hliteral⟩ := exists_hundredths h
  refine ⟨hdecimals, _, _, hworth, hliteral, div_nonneg (Nat.cast_nonneg _) (by norm_num), ?_,
    hundredths_near u⟩
  have hle : (hundredths u : ℚ) ≤ 100 := by exact_mod_cast hundredths_le hu
  rw [div_le_one (by norm_num)]
  exact hle

theorem literal_mono (hx : x.InUnitRange) (hy : y.InUnitRange) {u v a b : ℚ} (hu : x.worth? = some u)
    (hv : y.worth? = some v) (ha : worth? (ofNumber x (some 2)).toList = some a)
    (hb : worth? (ofNumber y (some 2)).toList = some b) (h : u ≤ v) : a ≤ b := by
  obtain ⟨m, -, hm, -, hliteral⟩ := exists_hundredths hx
  obtain ⟨n, -, hn, -, hliteral'⟩ := exists_hundredths hy
  obtain rfl := Option.some.inj (hm.symm.trans hu)
  obtain rfl := Option.some.inj (hn.symm.trans hv)
  obtain rfl := Option.some.inj (hliteral.symm.trans ha)
  obtain rfl := Option.some.inj (hliteral'.symm.trans hb)
  have hone : (0 : ℚ) < perOne := Nat.cast_pos.mpr perOne_pos
  have hle : m ≤ n := by exact_mod_cast (div_le_div_iff_of_pos_right hone).mp h
  have hmono : (hundredths m : ℚ) ≤ hundredths n := by exact_mod_cast hundredths_mono hle
  exact div_le_div_of_nonneg_right hmono (by norm_num)

end Literal

/-! ## Lines -/

namespace Palette

def channels (p : Palette) : List Binary64 := p.colors.flatMap (·.2.channels)

/-- The constant for one color. -/
def line (color : String × Rgb) : List Char :=
  ("const float3 " ++ color.1 ++ " = float3(" ++ Literal.ofNumber color.2.red (some 2) ++ ", " ++
    Literal.ofNumber color.2.green (some 2) ++ ", " ++ Literal.ofNumber color.2.blue (some 2) ++ ");").toList

theorem line_eq (color : String × Rgb) : line color = (constant color.1 color.2).toList := by
  have hassign : " = float3(" = " = " ++ "float3(" := by decide
  have hclose : ");" = ")" ++ ";" := by decide
  unfold line constant Rgb.literal
  simp only [hassign, hclose, String.append_assoc]

theorem toList_constants (p : Palette) : p.constants.toList = ['\n'].intercalate (p.colors.map line) := by
  have hlines : p.colors.map line = (p.colors.map fun color => constant color.1 color.2).map String.toList := by
    rw [List.map_map]
    exact List.map_congr_left fun color _ => line_eq color
  rw [hlines, constants, lines, String.toList_intercalate]
  rfl

/-- Digits, signs and points end no line. -/
theorem literal_no_lineEnd (x : Binary64) : '\n' ∉ (Literal.ofNumber x (some 2)).toList :=
  fun h => absurd (Literal.numeral_literal x (some 2) _ h) (by decide)

theorem line_no_lineEnd {color : String × Rgb} (h : '\n' ∉ color.1.toList) : '\n' ∉ line color := by
  simp only [line, String.toList_append, List.mem_append, not_or]
  have hred := literal_no_lineEnd color.2.red
  have hgreen := literal_no_lineEnd color.2.green
  have hblue := literal_no_lineEnd color.2.blue
  exact ⟨⟨⟨⟨⟨⟨⟨⟨by decide, h⟩, by decide⟩, hred⟩, by decide⟩, hgreen⟩, by decide⟩, hblue⟩, by decide⟩

/-- The constants of a palette whose names have no line end, as no identifier has, are one line a color,
in order. Every channel between zero and one stands there as its nearest hundredth, and a greater
channel never as fewer of them. -/
theorem constants_rounded (p : Palette) (hnames : ∀ color ∈ p.colors, '\n' ∉ color.1.toList)
    (hchannels : ∀ x ∈ p.channels, x.InUnitRange) :
    p.constants.toList = ['\n'].intercalate (p.colors.map line) ∧
      (p.colors ≠ [] → p.constants.toList.splitOn '\n' = p.colors.map line) ∧
      (∀ x ∈ p.channels, Literal.IsHundredth x (Literal.ofNumber x (some 2)).toList) ∧
      ∀ x ∈ p.channels, ∀ y ∈ p.channels, ∀ u v a b : ℚ, x.worth? = some u → y.worth? = some v →
        Literal.worth? (Literal.ofNumber x (some 2)).toList = some a →
        Literal.worth? (Literal.ofNumber y (some 2)).toList = some b → u ≤ v → a ≤ b := by
  refine ⟨toList_constants p, ?_, ?_, ?_⟩
  · intro hcolors
    rw [toList_constants, List.splitOn_intercalate]
    · intro l hl
      obtain ⟨color, hcolor, rfl⟩ := List.mem_map.mp hl
      exact line_no_lineEnd (hnames color hcolor)
    · simpa using hcolors
  · intro x hx
    exact Literal.isHundredth_literal (hchannels x hx)
  · intro x hx y hy u v a b
    exact Literal.literal_mono (hchannels x hx) (hchannels y hy)

/-- Two halves of a hundredth, which go to the even one, and a minus zero. -/
def eighths : Palette :=
  ⟨[("deep", ⟨.ofRatio false 1 8, .ofRatio true 0 1, .ofRatio false 1 1⟩),
    ("glow", ⟨.ofRatio false 3 8, .ofRatio false 1 255, .ofRatio false 0 1⟩)]⟩

theorem eighths_rounded : (∀ color ∈ eighths.colors, '\n' ∉ color.1.toList) ∧
    (∀ x ∈ eighths.channels, x.InUnitRange) ∧
    eighths.constants.toList.splitOn '\n' = ["const float3 deep = float3(0.12, -0.00, 1.00);".toList,
      "const float3 glow = float3(0.38, 0.00, 0.00);".toList] ∧
    Literal.IsHundredth (.ofRatio true 0 1) "-0.00".toList := by
  have hnames : ∀ color ∈ eighths.colors, '\n' ∉ color.1.toList := by
    simp only [eighths, List.forall_mem_cons, List.not_mem_nil, false_implies, implies_true, and_true]
    decide
  have hfixed : (Binary64.ofRatio true 0 1).extent? = some (.at 0) ∧
      eighths.colors.map line = ["const float3 deep = float3(0.12, -0.00, 1.00);".toList,
        "const float3 glow = float3(0.38, 0.00, 0.00);".toList] ∧
      Literal.ofNumber (.ofRatio true 0 1) (some 2) = "-0.00" := by
    decide +kernel
  obtain ⟨hextent, hline, hminus⟩ := hfixed
  have hzero : (Binary64.ofRatio true 0 1).InUnitRange := ⟨0, hextent, Int.le_refl 0, Int.natCast_nonneg _⟩
  have hfraction : ∀ n d : Nat, 0 < d ∧ n ≤ d → (Binary64.ofRatio false n d).InUnitRange :=
    fun _ _ h => inUnitRange_ofRatio h.1 h.2
  have hall : eighths.channels = [.ofRatio false 1 8, .ofRatio true 0 1, .ofRatio false 1 1, .ofRatio false 3 8,
      .ofRatio false 1 255, .ofRatio false 0 1] := by
    simp only [channels, eighths, Rgb.channels, List.flatMap_cons, List.flatMap_nil, List.cons_append, List.nil_append]
  have hchannels : ∀ x ∈ eighths.channels, x.InUnitRange := by
    rw [hall]
    simp only [List.forall_mem_cons, List.not_mem_nil, false_implies, implies_true, and_true]
    exact ⟨hfraction _ _ (by decide), hzero, hfraction _ _ (by decide), hfraction _ _ (by decide),
      hfraction _ _ (by decide), hfraction _ _ (by decide)⟩
  obtain ⟨-, hlines, hhundredths, -⟩ := constants_rounded eighths hnames hchannels
  have hmember : Binary64.ofRatio true 0 1 ∈ eighths.channels := by
    rw [hall]
    exact List.mem_cons_of_mem _ List.mem_cons_self
  refine ⟨hnames, hchannels, (hlines (List.cons_ne_nil _ _)).trans hline, ?_⟩
  rw [← hminus]
  exact hhundredths _ hmember

end Palette

end ShaderLoom
