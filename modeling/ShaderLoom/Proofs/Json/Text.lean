/-
  ShaderLoom.Proofs.Json.Text — text read back from its escaped form.

  A character is escaped into plain ASCII (`isPlain_escapedChar`) and read back whatever follows
  (`text?_escapedChar`): a short escape, the character itself, one unit of four hexadecimal digits
  or, beyond the 16-bit characters, a pair of them. So a whole text reads back up to its closing
  quote (`text?_escaped`).
-/

import Mathlib.Tactic.SplitIfs
import ShaderLoom.Json.Reading
import ShaderLoom.Json.Written

namespace ShaderLoom.Json

open ShaderLoom.Text

variable {cs rest r : List Char} {c x : Char} {n : Nat}

/-! ## Hexadecimal digits -/

theorem hexText_one {d : Nat} (hd : d < 16) : hexText 1 d = [Nat.digitChar d] := by
  rw [hexText, Nat.toDigits_of_lt_base hd]
  rfl

/-- A wider row of digits is the row of the sixteenth and one digit more. -/
theorem hexText_succ (w n : Nat) : hexText (w + 2) n = hexText (w + 1) (n / 16) ++ [Nat.digitChar (n % 16)] := by
  by_cases hn : n < 16
  · have hdiv : n / 16 = 0 := Nat.div_eq_of_lt hn
    have hzeros : List.replicate (w + 1) '0' = List.replicate w '0' ++ ['0'] := List.replicate_succ'
    rw [hexText, Nat.toDigits_of_lt_base hn, hdiv, Nat.mod_eq_of_lt hn]
    exact congrArg (· ++ [Nat.digitChar n]) hzeros
  · have hdigits := Nat.toDigits_of_base_le (b := 16) (by decide) (Nat.le_of_not_lt hn)
    have hwidth : w + 2 - ((Nat.toDigits 16 (n / 16)).length + 1) = w + 1 - (Nat.toDigits 16 (n / 16)).length := by omega
    rw [hexText, hexText, hdigits, List.length_append, List.length_singleton, hwidth, List.append_assoc]

theorem hexText_four (hn : n < 0x10000) : hexText 4 n =
    [Nat.digitChar (n / 16 / 16 / 16), Nat.digitChar (n / 16 / 16 % 16), Nat.digitChar (n / 16 % 16),
      Nat.digitChar (n % 16)] := by
  rw [hexText_succ 2, hexText_succ 1, hexText_succ 0, hexText_one (by omega)]
  rfl

theorem hexValue?_digitChar {d : Nat} (hd : d < 16) : hexValue? (Nat.digitChar d) = some d := by
  have hall : ∀ d < 16, hexValue? (Nat.digitChar d) = some d := by decide
  exact hall d hd

theorem unit?_digitChars (hn : n < 0x10000) :
    unit? (Nat.digitChar (n / 16 / 16 / 16)) (Nat.digitChar (n / 16 / 16 % 16)) (Nat.digitChar (n / 16 % 16))
      (Nat.digitChar (n % 16)) = some n := by
  have hsum : 4096 * (n / 16 / 16 / 16) + 256 * (n / 16 / 16 % 16) + 16 * (n / 16 % 16) + n % 16 = n := by omega
  rw [unit?, hexValue?_digitChar (by omega), hexValue?_digitChar (by omega), hexValue?_digitChar (by omega),
    hexValue?_digitChar (by omega)]
  exact congrArg some hsum

/-! ## Units -/

theorem single?_toNat (c : Char) : single? c.toNat = some c := by
  have hvalid : c.toNat < 0xD800 ∨ 0xDFFF < c.toNat ∧ c.toNat < 0x110000 := c.valid
  rw [single?, if_neg (by omega), Char.ofNat_toNat]

/-- The units of a character beyond the 16-bit ones are a pair of surrogates. -/
theorem paired?_units (hc : 0x10000 ≤ c.toNat) :
    paired? (0xD800 + (c.toNat - 0x10000) / 0x400) (0xDC00 + (c.toNat - 0x10000) % 0x400) = some c := by
  have hvalid : c.toNat < 0xD800 ∨ 0xDFFF < c.toNat ∧ c.toNat < 0x110000 := c.valid
  have hsum : 0x10000 + 0x400 * (0xD800 + (c.toNat - 0x10000) / 0x400 - 0xD800) +
      (0xDC00 + (c.toNat - 0x10000) % 0x400 - 0xDC00) = c.toNat := by omega
  rw [paired?, if_pos (by omega), hsum, Char.ofNat_toNat]

theorem text?_unit (hn : n < 0x10000) (hx : single? n = some x) (h : text? rest = some (cs, r)) :
    text? (unitText n ++ rest) = some (x :: cs, r) := by
  rw [unitText, hexText_four hn]
  have hunit := unit?_digitChars hn
  by_cases hpair : ∃ e f g h rest', rest = '\\' :: 'u' :: e :: f :: g :: h :: rest'
  · obtain ⟨e, f, g, i, rest', rfl⟩ := hpair
    refine (text?.eq_3 _ _ _ _ e f g i rest').trans ?_
    simp only [hunit, hx, h]
    rfl
  · refine (text?.eq_4 _ _ _ _ rest fun e f g i rest' he => hpair ⟨e, f, g, i, rest', he⟩).trans ?_
    rw [hunit, Option.bind_some, hx, h]
    rfl

theorem text?_pair {high low : Nat} (hhigh : high < 0x10000) (hlow : low < 0x10000) (hx : paired? high low = some x)
    (h : text? rest = some (cs, r)) : text? (unitText high ++ (unitText low ++ rest)) = some (x :: cs, r) := by
  have hnone : single? high = none := by
    rw [paired?] at hx
    split at hx
    · rw [single?, if_pos (by omega)]
    · cases hx
  rw [unitText, unitText, hexText_four hhigh, hexText_four hlow]
  refine (text?.eq_3 _ _ _ _ _ _ _ _ rest).trans ?_
  simp only [unit?_digitChars hhigh, unit?_digitChars hlow, hnone, Option.bind_some, hx, h]
  rfl

/-! ## Characters -/

theorem text?_short (hc : shortEscape? c = some x) (h : text? rest = some (cs, r)) :
    text? ('\\' :: c :: rest) = some (x :: cs, r) := by
  have hu : c ≠ 'u' := by
    rintro rfl
    cases hc
  rw [text?.eq_5 c rest (fun _ _ _ _ _ _ _ _ _ hc _ => hu hc) (fun _ _ _ _ _ hc _ => hu hc), hc, h]
  rfl

theorem text?_itself (hquote : c ≠ '"') (hslash : c ≠ '\\') (hc : ' ' ≤ c) (h : text? rest = some (cs, r)) :
    text? (c :: rest) = some (c :: cs, r) := by
  have hplain : ¬(c < ' ' ∨ c = '\\') := fun h => h.elim (Char.not_lt.mpr hc) hslash
  rw [text?.eq_6 c rest hquote (fun _ _ _ _ _ _ _ _ _ hc _ => hslash hc) (fun _ _ _ _ _ hc _ => hslash hc)
    (fun _ _ hc _ => hslash hc), if_neg hplain, h]
  rfl

theorem text?_units (c : Char) (h : text? rest = some (cs, r)) : text? (unitsText c ++ rest) = some (c :: cs, r) := by
  have hvalid : c.toNat < 0xD800 ∨ 0xDFFF < c.toNat ∧ c.toNat < 0x110000 := c.valid
  rw [unitsText]
  by_cases hc : c.toNat < 0x10000
  · rw [if_pos hc]
    exact text?_unit hc (single?_toNat c) h
  · rw [if_neg hc, List.append_assoc]
    exact text?_pair (by omega) (by omega) (paired?_units (Nat.le_of_not_lt hc)) h

/-- A character reads back from its escaped form, whatever text follows. -/
theorem text?_escapedChar (c : Char) (h : text? rest = some (cs, r)) :
    text? (escapedChar c ++ rest) = some (c :: cs, r) := by
  rw [escapedChar]
  split_ifs with hquoted hline hreturn htab hback hfeed hplain
  · rcases hquoted with rfl | rfl
    · exact text?_short rfl h
    · exact text?_short rfl h
  · exact hline ▸ text?_short rfl h
  · exact hreturn ▸ text?_short rfl h
  · exact htab ▸ text?_short rfl h
  · have hc : c = Char.ofNat 8 := hback ▸ (Char.ofNat_toNat c).symm
    exact hc ▸ text?_short rfl h
  · have hc : c = Char.ofNat 12 := hfeed ▸ (Char.ofNat_toNat c).symm
    exact hc ▸ text?_short rfl h
  · exact text?_itself (fun h => hquoted (Or.inl h)) (fun h => hquoted (Or.inr h)) hplain.1 h
  · exact text?_units c h

/-- A text reads back from its escaped form, up to the quote that closes it. -/
theorem text?_escaped (cs rest : List Char) : text? (cs.flatMap escapedChar ++ '"' :: rest) = some (cs, rest) := by
  induction cs with
  | nil => rfl
  | cons c cs ih =>
    rw [List.flatMap_cons, List.append_assoc]
    exact text?_escapedChar c ih

/-! ## Plain characters -/

/-- The printing characters of ASCII. -/
def isPlain (c : Char) : Bool := ' ' ≤ c && c ≤ '~'

theorem isPlain_digitChar {d : Nat} (hd : d < 16) : isPlain (Nat.digitChar d) = true := by
  have hall : ∀ d < 16, isPlain (Nat.digitChar d) = true := by decide
  exact hall d hd

theorem isPlain_unitText (hn : n < 0x10000) : ∀ d ∈ unitText n, isPlain d = true := by
  rw [unitText, hexText_four hn]
  simp only [List.forall_mem_cons, List.not_mem_nil, false_implies, implies_true, and_true]
  exact ⟨by decide, by decide, isPlain_digitChar (by omega), isPlain_digitChar (by omega), isPlain_digitChar (by omega),
    isPlain_digitChar (by omega)⟩

theorem isPlain_unitsText (c : Char) : ∀ d ∈ unitsText c, isPlain d = true := by
  have hvalid : c.toNat < 0xD800 ∨ 0xDFFF < c.toNat ∧ c.toNat < 0x110000 := c.valid
  rw [unitsText]
  by_cases hc : c.toNat < 0x10000
  · rw [if_pos hc]
    exact isPlain_unitText hc
  · rw [if_neg hc]
    exact fun d hd => (List.mem_append.mp hd).elim (isPlain_unitText (by omega) d) (isPlain_unitText (by omega) d)

theorem isPlain_short (hc : isPlain c = true) : ∀ d ∈ ['\\', c], isPlain d = true :=
  List.forall_mem_cons.mpr ⟨by decide, List.forall_mem_singleton.mpr hc⟩

theorem isPlain_escapedChar (c : Char) : ∀ d ∈ escapedChar c, isPlain d = true := by
  rw [escapedChar]
  split_ifs with hquoted hline hreturn htab hback hfeed hplain
  · rcases hquoted with rfl | rfl
    · exact isPlain_short (by decide)
    · exact isPlain_short (by decide)
  · exact isPlain_short (by decide)
  · exact isPlain_short (by decide)
  · exact isPlain_short (by decide)
  · exact isPlain_short (by decide)
  · exact isPlain_short (by decide)
  · simpa [isPlain] using hplain
  · exact isPlain_unitsText c

end ShaderLoom.Json
