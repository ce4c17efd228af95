/-
  ShaderLoom.Proofs.Color — colors read from `#RRGGBB`.

  A fraction of at most one rounds to a number between zero and one (`inUnitRange_ofRatio`), so six
  hexadecimal digits behind one `#` read as a color whose channels lie there (`ofHex_of_digits`). A
  character more, whatever it is, and no color is read (`ofHex_of_length`).
-/

import ShaderLoom.Color
import ShaderLoom.Proofs.Config.Bounded
import ShaderLoom.Proofs.Number.Nearest

namespace ShaderLoom

/-! ## Fractions -/

namespace Binary64

variable {n d : Nat}

/-- No fraction of at most one takes a position beyond that of one. -/
theorem positionOfRatio_le (hd : 0 < d) (h : n ≤ d) : positionOfRatio n d ≤ 1023 * rowLength := by
  have hone : positionOfRatio 1 1 = 1023 * rowLength := by decide +kernel
  rw [← hone]
  exact positionOfRatio_mono hd (by decide) (by omega)

theorem units_le_perOne (h : n ≤ 1023 * rowLength) : units n ≤ perOne := by
  have hone : units (1023 * rowLength) = perOne := by decide +kernel
  rw [← hone]
  exact units_mono h

theorem inUnitRange_ofRatio (hd : 0 < d) (h : n ≤ d) : (ofRatio false n d).InUnitRange := by
  have hle := positionOfRatio_le hd h
  have hlt : positionOfRatio n d < span := Nat.lt_of_le_of_lt hle (by decide)
  refine ⟨units (positionOfRatio n d), ?_, Int.natCast_nonneg _, Int.ofNat_le.mpr (units_le_perOne hle)⟩
  rw [ofRatio, dif_pos hlt]
  rfl

end Binary64

/-! ## Hexadecimal digits -/

namespace Rgb

open Shape

/-- The value of an ASCII hexadecimal digit. -/
def hexValue (c : Char) : Nat := if c ≤ '9' then c.toNat - 48 else if c ≤ 'F' then c.toNat - 55 else c.toNat - 87

/-- All of these digits. -/
def hexDigits : List Char := (List.range' 48 10 ++ List.range' 65 6 ++ List.range' 97 6).map Char.ofNat

theorem mem_hexDigits {c : Char} (h : HexDigit c) : c ∈ hexDigits := by
  have hc : 48 ≤ c.toNat ∧ c.toNat ≤ 57 ∨ 65 ≤ c.toNat ∧ c.toNat ≤ 70 ∨ 97 ≤ c.toNat ∧ c.toNat ≤ 102 := by
    simpa [HexDigit, Char.le_def, UInt32.le_iff_toNat_le] using h
  refine List.mem_map.mpr ⟨c.toNat, ?_, Char.ofNat_toNat c⟩
  simp only [List.mem_append, List.mem_range'_1]
  omega

theorem hexDigit?_eq {c : Char} (h : HexDigit c) : Reading.hexDigit? c = some (hexValue c) ∧ hexValue c < 16 := by
  have hall : hexDigits.all (fun d => Reading.hexDigit? d == some (hexValue d) && hexValue d < 16) = true := by
    decide +kernel
  simpa using List.all_eq_true.mp hall c (mem_hexDigits h)

theorem ne_mark_of_hexDigit {c : Char} (h : HexDigit c) : c ≠ '#' := by
  have hall : hexDigits.all (· != '#') = true := by decide
  simpa using List.all_eq_true.mp hall c (mem_hexDigits h)

theorem ne_lineEnd_of_hexDigit {c : Char} (h : HexDigit c) : c ≠ '\n' := by
  have hall : hexDigits.all (· != '\n') = true := by decide
  simpa using List.all_eq_true.mp hall c (mem_hexDigits h)

/-- Two digits as a part of 255. -/
def hexRatio (a b : Char) : Binary64 := .ofRatio false (16 * hexValue a + hexValue b) 255

theorem hexChannel_eq {a b : Char} (ha : HexDigit a) (hb : HexDigit b) : hexChannel a b = .ok (hexRatio a b) := by
  rw [hexChannel, Reading.hexPair?, (hexDigit?_eq ha).1, (hexDigit?_eq hb).1]
  rfl

theorem inUnitRange_hexRatio {a b : Char} (ha : HexDigit a) (hb : HexDigit b) : (hexRatio a b).InUnitRange := by
  have hhigh := (hexDigit?_eq ha).2
  have hlow := (hexDigit?_eq hb).2
  exact Binary64.inUnitRange_ofRatio (by decide) (by omega)

variable {text : String}

/-- The marks in front of digits are passed over. -/
theorem dropWhile_mark {digits : List Char} (h : text.toList = '#' :: digits) (hd : ∀ c ∈ digits, c ≠ '#') :
    text.toList.dropWhile (· == '#') = digits := by
  rw [h]
  cases digits with
  | nil => rfl
  | cons c cs =>
    have hc : (c == '#') = false := beq_eq_false_iff_ne.mpr (hd c List.mem_cons_self)
    simp [hc]

/-- Six digits are read pair by pair, each pair as a channel between zero and one. -/
theorem ofHex_of_digits {digits : List Char} (h : text.toList = '#' :: digits) (hd : ∀ c ∈ digits, HexDigit c)
    (hlength : digits.length = 6) : ∃ c, ofHex text = .ok c ∧ ∀ x ∈ c.channels, x.InUnitRange := by
  have hrest := dropWhile_mark h fun c hc => ne_mark_of_hexDigit (hd c hc)
  match digits, hlength with
  | [r, r', g, g', b, b'], _ =>
    simp only [List.forall_mem_cons] at hd
    obtain ⟨hr, hr', hg, hg', hb, hb', -⟩ := hd
    refine ⟨⟨hexRatio r r', hexRatio g g', hexRatio b b'⟩, ?_, ?_⟩
    · rw [ofHex, hrest]
      simp only [hexChannel_eq hr hr', hexChannel_eq hg hg', hexChannel_eq hb hb']
      rfl
    · simp only [channels, List.forall_mem_cons, List.not_mem_nil, false_implies, implies_true, and_true]
      exact ⟨inUnitRange_hexRatio hr hr', inUnitRange_hexRatio hg hg', inUnitRange_hexRatio hb hb'⟩

theorem ofHex_of_length {digits : List Char} (h : text.toList = '#' :: digits) (hd : ∀ c ∈ digits, c ≠ '#')
    (hlength : digits.length ≠ 6) : ofHex text = .error (.notAColor text) := by
  rw [ofHex, dropWhile_mark h hd]
  split
  · exact absurd rfl hlength
  · rfl

end Rgb

end ShaderLoom
