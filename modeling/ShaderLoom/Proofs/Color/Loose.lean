/-
  ShaderLoom.Proofs.Color.Loose — the texts that are read as colors.

  Behind any number of `#` a color has six characters, and each two of them are read as one number. They
  may be hexadecimal digits, of which those below ten may be of any script; but a digit with a blank beside
  it or a sign before it is a number as well (`PairReads`, `hexPair?_eq_some_iff`). So beside the six ASCII
  digits of `#RRGGBB` looser texts are read too (`IsLoose`), and behind a minus sign a channel is below zero
  (`inUnitRange_pairRatio`). Everything else is refused, by its length or for its first two characters that
  are no number (`ofHex_outcome`).
-/

import ShaderLoom.Proofs.Color

namespace ShaderLoom.Rgb

open Shape

variable {a b c : Char} {n x y z : Int} {m : Nat} {text : String} {color : Rgb}

/-! ## Two characters -/

/-- The number that two characters are read as. -/
inductive PairReads : Char → Char → Int → Prop where
  | digits {a b : Char} {m n : Nat} (ha : Reading.hexDigit? a = some m) (hb : Reading.hexDigit? b = some n) :
      PairReads a b (16 * m + n)
  | blankBefore {a b : Char} {n : Nat} (ha : Text.isNumberBlank a = true) (hb : Reading.hexDigit? b = some n) :
      PairReads a b n
  | blankAfter {a b : Char} {n : Nat} (ha : Reading.hexDigit? a = some n) (hb : Text.isNumberBlank b = true) :
      PairReads a b n
  | plus {b : Char} {n : Nat} (hb : Reading.hexDigit? b = some n) : PairReads '+' b n
  | minus {b : Char} {n : Nat} (hb : Reading.hexDigit? b = some n) : PairReads '-' b (-n)

/-- All blanks around a number. -/
def numberBlanks : List Char :=
  ([32, 0x85, 0xA0, 0x1680, 0x2028, 0x2029, 0x202F, 0x205F, 0x3000] ++ List.range' 9 5 ++ List.range' 0x2000 11).map
    Char.ofNat

theorem mem_numberBlanks (h : Text.isNumberBlank c = true) : c ∈ numberBlanks := by
  refine List.mem_map.mpr ⟨c.toNat, ?_, Char.ofNat_toNat c⟩
  simp only [Text.isNumberBlank, Text.isWideBlank, Bool.or_eq_true, Bool.and_eq_true, beq_iff_eq, decide_eq_true_eq] at h
  simp only [List.mem_append, List.mem_range'_1, List.mem_cons, List.not_mem_nil, or_false]
  rcases h with (rfl | h) | h
  · decide
  · omega
  · omega

/-- A blank is no digit and no sign. -/
theorem blank_spec (h : Text.isNumberBlank c = true) : Reading.hexDigit? c = none ∧ c ≠ '+' ∧ c ≠ '-' := by
  have hall : numberBlanks.all (fun d => Reading.hexDigit? d == none && d != '+' && d != '-') = true := by
    decide +kernel
  simpa [and_assoc] using List.all_eq_true.mp hall c (mem_numberBlanks h)

theorem hexPair?_eq_some_iff : Reading.hexPair? a b = some n ↔ PairReads a b n := by
  have hplus : Reading.hexDigit? '+' = none := by decide +kernel
  have hminus : Reading.hexDigit? '-' = none := by decide +kernel
  constructor
  · intro h
    unfold Reading.hexPair? at h
    split at h
    · rename_i ha hb
      cases h
      exact .digits ha hb
    · rename_i hb
      split at h
      · rename_i hlead
        cases h
        rcases hlead with hblank | rfl
        · exact .blankBefore hblank hb
        · exact .plus hb
      · split at h
        · rename_i hsign
          cases h
          exact hsign ▸ .minus hb
        · cases h
    · rename_i ha _
      split at h
      · rename_i hblank
        cases h
        exact .blankAfter ha hblank
      · cases h
    · cases h
  · intro h
    unfold Reading.hexPair?
    cases h with
    | digits ha hb => rw [ha, hb]
    | blankBefore ha hb =>
      rw [(blank_spec ha).1, hb]
      exact if_pos (Or.inl ha)
    | blankAfter ha hb =>
      rw [ha, (blank_spec hb).1]
      exact if_pos hb
    | plus hb =>
      rw [hplus, hb]
      rfl
    | minus hb =>
      rw [hminus, hb]
      rfl

/-! ## Channels -/

/-- A number as a part of 255, as a channel is read. -/
def pairRatio (n : Int) : Binary64 := .ofRatio (decide (n < 0)) n.natAbs 255

theorem digitValue?_lt (h : Text.digitValue? c = some m) : m < 10 := by
  unfold Text.digitValue? at h
  split at h
  · rename_i hc
    cases h
    simp only [Char.le_def, UInt32.le_iff_toNat_le] at hc
    have hhigh : c.toNat ≤ 57 := hc.2
    omega
  split at h
  · cases h
  · obtain ⟨z, hz, rfl⟩ := Option.map_eq_some_iff.mp h
    have hrange := List.find?_some hz
    simp only [Bool.and_eq_true, decide_eq_true_eq] at hrange
    omega

theorem hexDigit?_lt (h : Reading.hexDigit? c = some m) : m < 16 := by
  unfold Reading.hexDigit? at h
  split at h
  · rename_i hc
    cases h
    simp only [Char.le_def, UInt32.le_iff_toNat_le] at hc
    have hhigh : c.toNat ≤ 102 := hc.2
    omega
  split at h
  · rename_i hc
    cases h
    simp only [Char.le_def, UInt32.le_iff_toNat_le] at hc
    have hhigh : c.toNat ≤ 70 := hc.2
    omega
  · exact Nat.lt_trans (digitValue?_lt h) (by decide)

/-- The number of a pair is at most 255, and with a sign it is at least -15. -/
theorem PairReads.bounds (h : PairReads a b n) : -15 ≤ n ∧ n ≤ 255 := by
  cases h with
  | digits ha hb =>
    have := hexDigit?_lt ha
    have := hexDigit?_lt hb
    omega
  | blankBefore _ hb =>
    have := hexDigit?_lt hb
    omega
  | blankAfter ha _ =>
    have := hexDigit?_lt ha
    omega
  | plus hb =>
    have := hexDigit?_lt hb
    omega
  | minus hb =>
    have := hexDigit?_lt hb
    omega

theorem not_inUnitRange_negative {k : Nat} (hpos : 0 < k) (hle : k ≤ 255) : ¬(Binary64.ofRatio true k 255).InUnitRange := by
  have hlt : Binary64.positionOfRatio k 255 < Binary64.span :=
    Nat.lt_of_le_of_lt (Binary64.positionOfRatio_le (by decide) hle) (by decide)
  have hone : 1 ≤ Binary64.positionOfRatio 1 255 := by decide +kernel
  have hposition : 1 ≤ Binary64.positionOfRatio k 255 :=
    Nat.le_trans hone (Binary64.positionOfRatio_mono (by decide) (by decide) (by omega))
  have hunits : Binary64.units 1 ≤ Binary64.units (Binary64.positionOfRatio k 255) := Binary64.units_mono hposition
  have hunit : Binary64.units 1 = 1 := by decide +kernel
  rintro ⟨u, hu, hlow, -⟩
  rw [Binary64.ofRatio, dif_pos hlt] at hu
  have hat : Extent.at (-(Binary64.units (Binary64.positionOfRatio k 255) : Int)) = .at u := Option.some.inj hu
  cases hat
  omega

/-- A channel is between zero and one unless a minus sign took it below. -/
theorem inUnitRange_pairRatio (h : PairReads a b n) : (pairRatio n).InUnitRange ↔ 0 ≤ n := by
  obtain ⟨hlow, hhigh⟩ := h.bounds
  rw [pairRatio]
  constructor
  · intro hrange
    refine Int.not_lt.mp fun hneg => ?_
    rw [decide_eq_true hneg] at hrange
    exact not_inUnitRange_negative (by omega) (by omega) hrange
  · intro hn
    rw [decide_eq_false (Int.not_lt.mpr hn)]
    exact Binary64.inUnitRange_ofRatio (by decide) (by omega)

/-- Two ASCII digits are read as the number that they write. -/
theorem pairReads_of_hexDigits (ha : HexDigit a) (hb : HexDigit b) : PairReads a b (16 * hexValue a + hexValue b : Nat) := by
  rw [Int.natCast_add, Int.natCast_mul]
  exact .digits (hexDigit?_eq ha).1 (hexDigit?_eq hb).1

theorem pairRatio_hexValue : pairRatio (16 * hexValue a + hexValue b : Nat) = hexRatio a b := by
  rw [pairRatio, decide_eq_false (Int.not_lt.mpr (Int.natCast_nonneg _)), Int.natAbs_natCast, hexRatio]

/-! ## Six characters -/

/-- What is behind the marks. -/
def body (text : String) : List Char := text.toList.dropWhile (· == '#')

/-- Six characters behind the marks that are read as three numbers. -/
def PairsRead (text : String) (x y z : Int) : Prop :=
  ∃ r r' g g' b b', body text = [r, r', g, g', b, b'] ∧ PairReads r r' x ∧ PairReads g g' y ∧ PairReads b b' z

def pairs : List Char → List (Char × Char)
  | a :: b :: rest => (a, b) :: pairs rest
  | _ => []

/-- The first two of six characters that are no number. -/
def FirstUnread (text : String) (a b : Char) : Prop :=
  (body text).length = 6 ∧ ∃ before after, pairs (body text) = before ++ (a, b) :: after ∧
    (∀ pair ∈ before, ∃ n, PairReads pair.1 pair.2 n) ∧ ∀ n, ¬PairReads a b n

/-- Six ASCII hexadecimal digits behind the marks. -/
def IsExact (text : String) : Prop := (body text).length = 6 ∧ ∀ c ∈ body text, HexDigit c

/-- A text that is read with a character that is no such digit: a sign, a blank or a digit of another script. -/
def IsLoose (text : String) : Prop := (∃ x y z, PairsRead text x y z) ∧ ∃ c ∈ body text, ¬HexDigit c

/-- Two characters are read as a channel, or they are named in the refusal. -/
theorem hexChannel_cases (a b : Char) :
    (∃ n, PairReads a b n ∧ hexChannel a b = .ok (pairRatio n)) ∨
    (∀ n, ¬PairReads a b n) ∧ hexChannel a b = .error (.notAHexPair (String.ofList [a, b])) := by
  simp only [← hexPair?_eq_some_iff]
  rw [hexChannel]
  cases Reading.hexPair? a b with
  | none => exact .inr ⟨fun n => (Option.some_ne_none n).symm, rfl⟩
  | some n => exact .inl ⟨n, rfl, rfl⟩

theorem ofHex_of_body {r r' g g' b b' : Char} (h : body text = [r, r', g, g', b, b']) : ofHex text = do
    return ⟨← hexChannel r r', ← hexChannel g g', ← hexChannel b b'⟩ := by
  rw [ofHex, show text.toList.dropWhile (· == '#') = _ from h]

theorem ofHex_of_length_ne (h : (body text).length ≠ 6) : ofHex text = .error (.notAColor text) := by
  rw [ofHex]
  split
  · rename_i hbody
    rw [body, hbody] at h
    exact absurd rfl h
  · rfl

theorem exists_body (h : (body text).length = 6) : ∃ r r' g g' b b', body text = [r, r', g, g', b, b'] := by
  match hbody : body text, h with
  | [r, r', g, g', b, b'], _ => exact ⟨r, r', g, g', b, b', rfl⟩

/-- A text is read by its three numbers, or refused by its length or for the first pair that is no number. -/
theorem ofHex_cases (text : String) :
    (∃ x y z, PairsRead text x y z ∧ ofHex text = .ok ⟨pairRatio x, pairRatio y, pairRatio z⟩) ∨
    (body text).length ≠ 6 ∧ ofHex text = .error (.notAColor text) ∨
    ∃ a b, FirstUnread text a b ∧ ofHex text = .error (.notAHexPair (String.ofList [a, b])) := by
  by_cases hlength : (body text).length = 6
  case neg => exact .inr (.inl ⟨hlength, ofHex_of_length_ne hlength⟩)
  obtain ⟨r, r', g, g', b, b', hbody⟩ := exists_body hlength
  have hpairs : pairs (body text) = [(r, r'), (g, g'), (b, b')] := by
    rw [hbody]
    rfl
  rw [ofHex_of_body hbody]
  obtain ⟨x, hx, hred⟩ | ⟨hbad, hred⟩ := hexChannel_cases r r'
  case inr =>
    rw [hred]
    exact .inr (.inr ⟨r, r', ⟨hlength, [], _, hpairs, nofun, hbad⟩, rfl⟩)
  obtain ⟨y, hy, hgreen⟩ | ⟨hbad, hgreen⟩ := hexChannel_cases g g'
  case inr =>
    rw [hred, hgreen]
    exact .inr (.inr ⟨g, g', ⟨hlength, [(r, r')], _, hpairs, by simpa using ⟨x, hx⟩, hbad⟩, rfl⟩)
  obtain ⟨z, hz, hblue⟩ | ⟨hbad, hblue⟩ := hexChannel_cases b b'
  case inr =>
    rw [hred, hgreen, hblue]
    exact .inr (.inr ⟨b, b', ⟨hlength, [(r, r'), (g, g')], _, hpairs, by simpa using ⟨⟨x, hx⟩, y, hy⟩, hbad⟩, rfl⟩)
  rw [hred, hgreen, hblue]
  exact .inl ⟨x, y, z, ⟨r, r', g, g', b, b', hbody, hx, hy, hz⟩, rfl⟩

theorem ofHex_of_pairsRead (h : PairsRead text x y z) :
    ofHex text = .ok ⟨pairRatio x, pairRatio y, pairRatio z⟩ := by
  obtain ⟨r, r', g, g', b, b', hbody, hx, hy, hz⟩ := h
  simp only [← hexPair?_eq_some_iff] at hx hy hz
  rw [ofHex_of_body hbody, hexChannel, hexChannel, hexChannel, hx, hy, hz]
  rfl

/-- The channels are between zero and one unless a minus sign took one of them below. -/
theorem PairsRead.inUnitRange_iff (h : PairsRead text x y z) :
    (∀ channel ∈ [pairRatio x, pairRatio y, pairRatio z], channel.InUnitRange) ↔ 0 ≤ x ∧ 0 ≤ y ∧ 0 ≤ z := by
  obtain ⟨r, r', g, g', b, b', -, hx, hy, hz⟩ := h
  simp only [List.forall_mem_cons, inUnitRange_pairRatio hx, inUnitRange_pairRatio hy, inUnitRange_pairRatio hz,
    List.not_mem_nil, false_implies, implies_true, and_true]

/-- Six ASCII digits are read as the three numbers that they write. -/
theorem IsExact.pairsRead (h : IsExact text) : ∃ r r' g g' b b', body text = [r, r', g, g', b, b'] ∧
    PairsRead text (16 * hexValue r + hexValue r' : Nat) (16 * hexValue g + hexValue g' : Nat)
      (16 * hexValue b + hexValue b' : Nat) := by
  obtain ⟨hlength, hdigits⟩ := h
  obtain ⟨r, r', g, g', b, b', hbody⟩ := exists_body hlength
  rw [hbody] at hdigits
  simp only [List.forall_mem_cons] at hdigits
  obtain ⟨hr, hr', hg, hg', hb, hb', -⟩ := hdigits
  exact ⟨r, r', g, g', b, b', hbody, r, r', g, g', b, b', hbody, pairReads_of_hexDigits hr hr',
    pairReads_of_hexDigits hg hg', pairReads_of_hexDigits hb hb'⟩

theorem PairsRead.length_body (h : PairsRead text x y z) : (body text).length = 6 := by
  obtain ⟨r, r', g, g', b, b', hbody, -⟩ := h
  rw [hbody]
  rfl

theorem PairsRead.isExact_or_isLoose (h : PairsRead text x y z) : IsExact text ∨ IsLoose text := by
  by_cases hdigits : ∀ c ∈ body text, HexDigit c
  · exact .inl ⟨h.length_body, hdigits⟩
  · simp only [Classical.not_forall] at hdigits
    obtain ⟨c, hmem, hc⟩ := hdigits
    exact .inr ⟨⟨x, y, z, h⟩, c, hmem, hc⟩

theorem exists_pairsRead_iff : (∃ x y z, PairsRead text x y z) ↔ IsExact text ∨ IsLoose text := by
  constructor
  · rintro ⟨x, y, z, h⟩
    exact h.isExact_or_isLoose
  · rintro (h | h)
    · obtain ⟨r, r', g, g', b, b', -, h⟩ := h.pairsRead
      exact ⟨_, _, _, h⟩
    · exact h.1

theorem ofHex_eq_ok_iff : ofHex text = .ok color ↔
    ∃ x y z, PairsRead text x y z ∧ color = ⟨pairRatio x, pairRatio y, pairRatio z⟩ := by
  constructor
  · intro h
    obtain ⟨x, y, z, hread, hok⟩ | ⟨-, herror⟩ | ⟨a, b, -, herror⟩ := ofHex_cases text
    · exact ⟨x, y, z, hread, Except.ok.inj (h.symm.trans hok)⟩
    · exact nomatch h.symm.trans herror
    · exact nomatch h.symm.trans herror
  · rintro ⟨x, y, z, hread, rfl⟩
    exact ofHex_of_pairsRead hread

/-- What is read as a color: six ASCII digits behind the marks, each two of them a part of 255 between zero and
    one, and beside them the loose texts, whose channels lie there too unless a number is below zero. Every
    other text is refused, for its length or for its first two characters that are no number. -/
theorem ofHex_outcome (text : String) :
    ((∃ color, ofHex text = .ok color) ↔ IsExact text ∨ IsLoose text) ∧
    ((IsExact text ∧ ∃ r r' g g' b b', body text = [r, r', g, g', b, b'] ∧
        ofHex text = .ok ⟨hexRatio r r', hexRatio g g', hexRatio b b'⟩ ∧
        ∀ channel ∈ [hexRatio r r', hexRatio g g', hexRatio b b'], channel.InUnitRange) ∨
      (IsLoose text ∧ ∃ x y z, PairsRead text x y z ∧ ofHex text = .ok ⟨pairRatio x, pairRatio y, pairRatio z⟩ ∧
        ((∀ channel ∈ [pairRatio x, pairRatio y, pairRatio z], channel.InUnitRange) ↔ 0 ≤ x ∧ 0 ≤ y ∧ 0 ≤ z)) ∨
      (¬(IsExact text ∨ IsLoose text) ∧
        ((body text).length ≠ 6 ∧ ofHex text = .error (.notAColor text) ∨
          ∃ a b, FirstUnread text a b ∧ ofHex text = .error (.notAHexPair (String.ofList [a, b]))))) := by
  have hok : (∃ color, ofHex text = .ok color) ↔ IsExact text ∨ IsLoose text := by
    rw [← exists_pairsRead_iff]
    simp only [ofHex_eq_ok_iff]
    exact ⟨fun ⟨_, x, y, z, h, _⟩ => ⟨x, y, z, h⟩, fun ⟨x, y, z, h⟩ => ⟨_, x, y, z, h, rfl⟩⟩
  refine ⟨hok, ?_⟩
  by_cases hread : IsExact text ∨ IsLoose text
  · obtain hexact | hloose := hread
    · obtain ⟨r, r', g, g', b, b', hbody, hpairs⟩ := hexact.pairsRead
      have hok := ofHex_of_pairsRead hpairs
      have hrange := hpairs.inUnitRange_iff.mpr ⟨Int.natCast_nonneg _, Int.natCast_nonneg _, Int.natCast_nonneg _⟩
      simp only [pairRatio_hexValue] at hok hrange
      exact .inl ⟨hexact, r, r', g, g', b, b', hbody, hok, hrange⟩
    · obtain ⟨x, y, z, hpairs⟩ := hloose.1
      exact .inr (.inl ⟨hloose, x, y, z, hpairs, ofHex_of_pairsRead hpairs, hpairs.inUnitRange_iff⟩)
  · refine .inr (.inr ⟨hread, ?_⟩)
    obtain ⟨x, y, z, hpairs, -⟩ | hrefused := ofHex_cases text
    · exact absurd hpairs.isExact_or_isLoose hread
    · exact hrefused

/-- A sign, or a blank before a digit, makes a number too, and the sign a channel below zero. -/
theorem signed_pairs_accepted : (∃ color, ofHex "#-1+2 3" = .ok color ∧ ¬color.red.InUnitRange) ∧ ¬IsExact "#-1+2 3" := by
  have hred : PairReads '-' '1' (-1) := .minus (n := 1) (by decide +kernel)
  have hread : PairsRead "#-1+2 3" (-1) 2 3 := by
    refine ⟨'-', '1', '+', '2', ' ', '3', rfl, hred, .plus (n := 2) (by decide +kernel), ?_⟩
    exact .blankBefore (n := 3) (by decide +kernel) (by decide +kernel)
  have hsign : ¬HexDigit '-' := by
    unfold HexDigit
    decide
  refine ⟨⟨_, ofHex_of_pairsRead hread, ?_⟩, fun hexact => hsign (hexact.2 '-' (by decide))⟩
  rw [inUnitRange_pairRatio hred]
  decide

end ShaderLoom.Rgb
