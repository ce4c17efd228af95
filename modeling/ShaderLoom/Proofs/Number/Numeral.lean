/-
  ShaderLoom.Proofs.Number.Numeral — the characters that numbers are written with.

  A number as text, in its plain form or with fixed decimals, is made of digits, signs, a point, the
  `e` of a power of ten and the letters of `inf` and `nan` (`numeral_shortestText`,
  `numeral_fixedText`), and so is every literal, which is never empty (`numeral_literal`,
  `literal_ne_nil`). A word in small letters that has a letter beyond these is shown by no value but
  itself (`eq_str_of_text`).
-/

import ShaderLoom.Literal
import ShaderLoom.Value.Display

namespace ShaderLoom

/-- The characters of numbers and of the words `inf` and `nan`. -/
def isNumeral (c : Char) : Bool := c.isDigit || ['+', '-', '.', 'a', 'e', 'f', 'i', 'n'].contains c

def Numeral (cs : List Char) : Prop := ∀ c ∈ cs, isNumeral c = true

/-- All of them. -/
def numerals : List Char :=
  ((List.range 10).map fun k => Char.ofNat (48 + k)) ++ ['+', '-', '.', 'a', 'e', 'f', 'i', 'n']

theorem mem_numerals {c : Char} (h : isNumeral c = true) : c ∈ numerals := by
  rw [isNumeral, Bool.or_eq_true] at h
  rcases h with h | h
  · have hc : 48 ≤ c.toNat ∧ c.toNat ≤ 57 := by simpa [Char.isDigit, UInt32.le_iff_toNat_le] using h
    refine List.mem_append_left _ (List.mem_map.mpr ⟨c.toNat - 48, List.mem_range.mpr (by omega), ?_⟩)
    rw [Nat.add_sub_cancel' hc.1, Char.ofNat_toNat]
  · exact List.mem_append_right _ (by simpa using h)

instance (cs : List Char) : Decidable (Numeral cs) := decidable_of_iff (cs.all isNumeral = true) List.all_eq_true

namespace Numeral

theorem nil : Numeral [] := fun _ h => nomatch h

theorem cons {c : Char} {cs : List Char} (hc : isNumeral c = true) (hcs : Numeral cs) : Numeral (c :: cs) :=
  List.forall_mem_cons.mpr ⟨hc, hcs⟩

theorem append {a b : List Char} (ha : Numeral a) (hb : Numeral b) : Numeral (a ++ b) :=
  List.forall_mem_append.mpr ⟨ha, hb⟩

theorem mono {a b : List Char} (hb : Numeral b) (h : ∀ c ∈ a, c ∈ b) : Numeral a := fun c hc => hb c (h c hc)

theorem ite {p : Prop} [Decidable p] {a b : List Char} (ha : Numeral a) (hb : Numeral b) :
    Numeral (if p then a else b) := by
  split
  · exact ha
  · exact hb

end Numeral

open Numeral

/-! ## Decimals -/

namespace Decimal

theorem numeral_digitText (n : Nat) : Numeral (digitText n) := by
  intro c hc
  rw [isNumeral, Nat.isDigit_of_mem_toDigits (by decide) (by decide) hc, Bool.true_or]

theorem numeral_zeros (n : Nat) : Numeral (zeros n) := by
  intro c hc
  rw [List.eq_of_mem_replicate hc]
  decide

theorem numeral_significant (n : Nat) : Numeral (significant n) := by
  refine (numeral_digitText n).mono fun c hc => ?_
  rw [significant, List.mem_reverse] at hc
  exact List.mem_reverse.mp ((List.dropWhile_suffix _).subset hc)

theorem numeral_positional {digits : List Char} (h : Numeral digits) (point : Int) :
    Numeral (positional digits point) := by
  unfold positional
  cases point with
  | ofNat p =>
    refine ite (cons (by decide) (cons (by decide) h)) (ite ?_ ?_)
    · exact append (append h (numeral_zeros _)) (by decide)
    · exact append (h.mono fun c => List.mem_of_mem_take) (cons (by decide) (h.mono fun c => List.mem_of_mem_drop))
  | negSucc p => exact cons (by decide) (cons (by decide) (append (numeral_zeros _) h))

theorem numeral_scientific {digits : List Char} (h : Numeral digits) (exponent : Int) :
    Numeral (scientific digits exponent) := by
  have hsign : isNumeral (if exponent < 0 then '-' else '+') = true := by split <;> decide
  refine append ?_ (cons (by decide) (cons hsign (append (numeral_zeros _) (numeral_digitText _))))
  split
  · rename_i d e rest
    obtain ⟨hd, hrest⟩ := List.forall_mem_cons.mp h
    exact cons hd (cons (by decide) hrest)
  · exact h

theorem numeral_text (d : Decimal) : Numeral d.text :=
  ite (numeral_positional (numeral_significant _) _) (numeral_scientific (numeral_significant _) _)

end Decimal

namespace Binary64

theorem numeral_signText (negative : Bool) : Numeral (signText negative) := by cases negative <;> decide

theorem numeral_shortestText (x : Binary64) : Numeral x.shortestText := by
  cases x with
  | nan => decide
  | infinite negative => exact append (numeral_signText _) (by decide)
  | finite negative p => exact append (numeral_signText _) (ite (by decide) (Decimal.numeral_text _))

theorem numeral_fixedDigits (n places : Nat) : Numeral (fixedDigits n places) := by
  have hwhole := Decimal.numeral_digitText (n / Nat.pow 10 places)
  refine ite hwhole (append hwhole (cons (by decide) ?_))
  exact append (Decimal.numeral_zeros _) (Decimal.numeral_digitText _)

theorem numeral_fixedText (places : Nat) (x : Binary64) : Numeral (x.fixedText places) := by
  cases x with
  | nan => exact (by decide : Numeral "nan".toList)
  | infinite negative => exact append (numeral_signText _) (by decide)
  | finite negative p => exact append (numeral_signText _) (numeral_fixedDigits _ _)

end Binary64

/-! ## Literals -/

namespace Literal

theorem numeral_pointed {cs : List Char} (h : Numeral cs) : Numeral (pointed cs) := by
  have hpoint : Numeral (if cs.contains '.' then cs else cs ++ ['.', '0']) := ite h (append h (by decide))
  exact ite (append hpoint (by decide)) hpoint

theorem numeral_plain (x : Binary64) : Numeral (plain x) := by
  refine numeral_pointed (ite ((x.numeral_fixedText 17).mono fun c hc => ?_) x.numeral_shortestText)
  rw [Text.trimEnd, List.mem_reverse] at hc
  exact List.mem_reverse.mp ((List.dropWhile_suffix _).subset hc)

theorem numeral_fixed (decimals : Int) (x : Binary64) : Numeral (fixed decimals x) :=
  ite (x.numeral_fixedText _) (append (x.numeral_fixedText 0) (by decide))

theorem numeral_literal (x : Binary64) (decimals : Option Int) : Numeral (ofNumber x decimals).toList := by
  cases decimals with
  | none => exact String.toList_ofList ▸ numeral_plain x
  | some d => exact String.toList_ofList ▸ numeral_fixed d x

theorem fixedText_ne_nil (places : Nat) (x : Binary64) : x.fixedText places ≠ [] := by
  cases x with
  | nan => exact (by decide : "nan".toList ≠ [])
  | infinite negative => exact List.append_ne_nil_of_right_ne_nil _ (by decide)
  | finite negative p =>
    refine List.append_ne_nil_of_right_ne_nil _ ?_
    unfold Binary64.fixedDigits
    split
    · exact Nat.toDigits_ne_nil
    · exact List.append_ne_nil_of_right_ne_nil _ (List.cons_ne_nil _ _)

theorem pointed_ne_nil (cs : List Char) : pointed cs ≠ [] := by
  have hpoint : (if cs.contains '.' then cs else cs ++ ['.', '0']) ≠ [] := by
    split
    · rename_i h
      intro hcs
      rw [hcs] at h
      cases h
    · exact List.append_ne_nil_of_right_ne_nil _ (List.cons_ne_nil _ _)
  have hlast : ∀ ds : List Char, ds ≠ [] → (if ds.getLast? = some '.' then ds ++ ['0'] else ds) ≠ [] := by
    intro ds hds
    split
    · exact List.append_ne_nil_of_right_ne_nil _ (List.cons_ne_nil _ _)
    · exact hds
  exact hlast _ hpoint

theorem literal_ne_nil (x : Binary64) (decimals : Option Int) : (ofNumber x decimals).toList ≠ [] := by
  cases decimals with
  | none => exact String.toList_ofList ▸ pointed_ne_nil _
  | some d =>
    refine String.toList_ofList ▸ ?_
    show (if d > 0 then _ else _) ≠ []
    split
    · exact fixedText_ne_nil _ _
    · exact List.append_ne_nil_of_right_ne_nil _ (List.cons_ne_nil _ _)

end Literal

/-! ## Values as text -/

theorem numeral_intText (n : Int) : Numeral (intText n).toList := by
  rw [intText, String.toList_ofList]
  exact append (ite (by decide) nil) (Decimal.numeral_digitText _)

/-- A word of small letters, one of which no number has, is what text alone can show. -/
theorem Value.eq_str_of_text {v : Value} {s : String} (h : v.text = s) (hs : ¬Numeral s.toList)
    (hsmall : ∀ c ∈ s.toList, c.isLower ∨ c = '_') : v = .str s := by
  have hmark : ∀ c : Char, (c.isLower = false ∧ c ≠ '_') → ∀ rest : String, s ≠ String.ofList [c] ++ rest := by
    rintro c ⟨hc, hne⟩ rest rfl
    have := hsmall c (by simp)
    simp [hc, hne] at this
  cases v with
  | str t => exact congrArg Value.str h
  | null => exact absurd h.symm (hmark 'N' (by decide) "one")
  | bool b =>
    cases b with
    | true => exact absurd h.symm (hmark 'T' (by decide) "rue")
    | false => exact absurd h.symm (hmark 'F' (by decide) "alse")
  | int n => exact absurd (h ▸ numeral_intText n) hs
  | float x =>
    have hx : x.text = s := h
    rw [← hx, Binary64.text, String.toList_ofList] at hs
    exact absurd x.numeral_shortestText hs
  | list items => exact absurd (h.symm.trans String.append_assoc) (hmark '[' (by decide) _)
  | map entries => exact absurd (h.symm.trans String.append_assoc) (hmark '\x7b' (by decide) _)

end ShaderLoom
