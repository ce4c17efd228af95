/-
  ShaderLoom.Proofs.Number.Spelled — numbers without a sign, spelled with digits of any script.

  The digits have a point or none, and a power of ten may stand behind them (`Spells`, `Power`). The reader takes
  every such text, with or without a sign before it, and gives the number nearest to the decimal that it spells
  (`number?_spelled`). The lexer cuts no other text as a number, but for one letter at its end
  (`exists_spelled`): where the digits of a power are missing the number ends before the power, and a point with
  no digit beside it is no number.
-/

import ShaderLoom.Number.Reading
import ShaderLoom.Number.Written
import ShaderLoom.Proofs.Lexeme.Significant

namespace ShaderLoom

open Binary64

/-! ## Runs -/

theorem Lexeme.dropWhile_append_eq_right {p : Char → Bool} {a r : List Char} (ha : ∀ c ∈ a, p c = true)
    (hr : startsWith p r = false) : (a ++ r).dropWhile p = r := by
  rw [← drop_takeWhile_length, takeWhile_append_eq_left.mpr ⟨ha, hr⟩, List.drop_left]

theorem Text.trimEnd_append {p : Char → Bool} {a b : List Char} (ha : ∀ c ∈ a, p c = false)
    (hb : ∀ c ∈ b, p c = true) : trimEnd p (a ++ b) = a := by
  have hstop : Lexeme.startsWith p a.reverse = false := by
    cases h : a.reverse with
    | nil => rfl
    | cons c r =>
      have hc : c ∈ a.reverse := by simp [h]
      exact ha c (List.mem_reverse.mp hc)
  have hdrop := Lexeme.dropWhile_append_eq_right (a := b.reverse) (by simpa using hb) hstop
  rw [trimEnd, List.reverse_append, hdrop, List.reverse_reverse]

namespace Reading

/-! ## Spellings -/

/-- A row of digits of any script, which may be empty. -/
def DigitRow (cs : List Char) : Prop := ∀ c ∈ cs, Text.isDigit c = true

/-- The power of ten behind the digits of a number, if there is one. -/
inductive Power : List Char → Int → Prop where
  | none : Power [] 0
  | bare {c : Char} {digits : List Char} (hc : c = 'e' ∨ c = 'E') (hne : digits ≠ []) (hrow : DigitRow digits) :
      Power (c :: digits) (ofDigits digits)
  | plus {c : Char} {digits : List Char} (hc : c = 'e' ∨ c = 'E') (hne : digits ≠ []) (hrow : DigitRow digits) :
      Power (c :: '+' :: digits) (ofDigits digits)
  | minus {c : Char} {digits : List Char} (hc : c = 'e' ∨ c = 'E') (hne : digits ≠ []) (hrow : DigitRow digits) :
      Power (c :: '-' :: digits) (-(ofDigits digits : Int))

/-- The decimal that a text spells: digits with a point or without one, and their power of ten. -/
inductive Spells : List Char → Decimal → Prop where
  | plain {whole power : List Char} {e : Int} (hwhole : DigitRow whole) (hne : whole ≠ []) (hpower : Power power e) :
      Spells (whole ++ power) ⟨ofDigits whole, e⟩
  | pointed {whole part power : List Char} {e : Int} (hwhole : DigitRow whole) (hpart : DigitRow part)
      (hne : ¬(whole = [] ∧ part = [])) (hpower : Power power e) :
      Spells (whole ++ '.' :: (part ++ power)) ⟨ofDigits (whole ++ part), e - part.length⟩

/-- What a spelling has beside digits. -/
def marks : List Char := ['.', 'e', 'E', '+', '-']

def InSpelling (c : Char) : Prop := Text.isDigit c = true ∨ c ∈ marks

variable {text power digits : List Char} {e : Int} {d : Decimal} {c : Char}

theorem DigitRow.chars (h : DigitRow digits) : ∀ c ∈ digits, InSpelling c := fun c hc => Or.inl (h c hc)

theorem powerLetter_spec (h : c = 'e' ∨ c = 'E') : InSpelling c ∧ Text.isDigit c = false ∧ c ≠ '.' := by
  rcases h with h | h
  · subst h
    exact ⟨Or.inr (by decide), by decide, by decide⟩
  · subst h
    exact ⟨Or.inr (by decide), by decide, by decide⟩

theorem Power.chars (h : Power power e) : ∀ c ∈ power, InSpelling c := by
  cases h with
  | none => simp
  | bare hc _ hrow => exact List.forall_mem_cons.mpr ⟨(powerLetter_spec hc).1, hrow.chars⟩
  | plus hc _ hrow =>
    refine List.forall_mem_cons.mpr ⟨(powerLetter_spec hc).1, List.forall_mem_cons.mpr ⟨Or.inr ?_, hrow.chars⟩⟩
    decide
  | minus hc _ hrow =>
    refine List.forall_mem_cons.mpr ⟨(powerLetter_spec hc).1, List.forall_mem_cons.mpr ⟨Or.inr ?_, hrow.chars⟩⟩
    decide

/-- A power goes on neither the digits before it nor with a point. -/
theorem Power.start (h : Power power e) :
    Lexeme.startsWith Text.isDigit power = false ∧ fraction power = ([], power) := by
  have hletter : ∀ (c : Char) (rest : List Char), c = 'e' ∨ c = 'E' →
      Lexeme.startsWith Text.isDigit (c :: rest) = false ∧ fraction (c :: rest) = ([], c :: rest) := by
    intro c rest hc
    obtain ⟨-, hdigit, hpoint⟩ := powerLetter_spec hc
    exact ⟨hdigit, fraction.eq_2 _ fun _ heq => hpoint (List.cons.inj heq).1⟩
  cases h with
  | none => exact ⟨rfl, rfl⟩
  | bare hc _ _ => exact hletter _ _ hc
  | plus hc _ _ => exact hletter _ _ hc
  | minus hc _ _ => exact hletter _ _ hc

theorem Spells.chars (h : Spells text d) : ∀ c ∈ text, InSpelling c := by
  cases h with
  | plain hwhole _ hpower => exact List.forall_mem_append.mpr ⟨hwhole.chars, hpower.chars⟩
  | pointed hwhole hpart _ hpower =>
    have hbehind := List.forall_mem_append.mpr ⟨hpart.chars, hpower.chars⟩
    exact List.forall_mem_append.mpr ⟨hwhole.chars, List.forall_mem_cons.mpr ⟨Or.inr (by decide), hbehind⟩⟩

/-- A spelling starts with a digit or a point, and in any case it has a digit. -/
theorem Spells.head (h : Spells text d) :
    (∃ c rest, text = c :: rest ∧ (Text.isDigit c = true ∨ c = '.')) ∧ ∃ c ∈ text, Text.isDigit c = true := by
  cases h with
  | @plain whole power e hwhole hne _ =>
    obtain ⟨c, rest, hcons⟩ := List.exists_cons_of_ne_nil hne
    have hc : Text.isDigit c = true := hwhole c (by simp [hcons])
    exact ⟨⟨c, rest ++ power, by simp [hcons], Or.inl hc⟩, c, by simp [hcons], hc⟩
  | @pointed whole part power e hwhole hpart hne _ =>
    by_cases hw : whole = []
    · obtain ⟨c, rest, hcons⟩ := List.exists_cons_of_ne_nil fun hp => hne ⟨hw, hp⟩
      exact ⟨⟨'.', part ++ power, by simp [hw], Or.inr rfl⟩, c, by simp [hcons], hpart c (by simp [hcons])⟩
    · obtain ⟨c, rest, hcons⟩ := List.exists_cons_of_ne_nil hw
      have hc : Text.isDigit c = true := hwhole c (by simp [hcons])
      exact ⟨⟨c, rest ++ '.' :: (part ++ power), by simp [hcons], Or.inl hc⟩, c, by simp [hcons], hc⟩

/-! ## Spellings are read -/

theorem trim_eq_self {p : Char → Bool} {cs : List Char} (h : ∀ c ∈ cs, p c = false) : Text.trim p cs = cs := by
  have hstart : Text.trimStart p cs = cs := by
    cases cs with
    | nil => rfl
    | cons c cs => exact List.dropWhile_cons_of_neg (by simp [h c List.mem_cons_self])
  have hend := Text.trimEnd_append (b := []) h (by simp)
  rw [List.append_nil] at hend
  rw [Text.trim, hstart, hend]

theorem joinDigits_eq_self {cs : List Char} (h : '_' ∉ cs) (afterDigit : Bool) : joinDigits afterDigit cs = some cs := by
  induction cs generalizing afterDigit with
  | nil => rfl
  | cons c rest ih =>
    have hc : c ≠ '_' := fun heq => h (heq ▸ List.mem_cons_self)
    have hrest := ih (fun hm => h (List.mem_cons_of_mem _ hm)) (Text.isDigit c)
    rw [joinDigits.eq_3 _ _ _ (fun _ _ heq _ => hc heq), if_neg hc, hrest]
    rfl

theorem splitSign_append {rest : List Char} (hc : Text.isDigit c = true ∨ c = '.') (negative : Bool) :
    splitSign (signText negative ++ c :: rest) = (negative, c :: rest) := by
  cases negative with
  | true => rfl
  | false =>
    have hne : ∀ s : Char, Text.isDigit s = false → s ≠ '.' → c ≠ s := by
      intro s hdigit hpoint heq
      subst heq
      rcases hc with hc | hc
      · rw [hc] at hdigit
        cases hdigit
      · exact hpoint hc
    exact splitSign.eq_3 _ (fun _ heq => hne '-' (by decide) (by decide) (List.cons.inj heq).1)
      fun _ heq => hne '+' (by decide) (by decide) (List.cons.inj heq).1

theorem exponent?_power (h : Power power e) : exponent? power = some e := by
  cases h with
  | none => rfl
  | @bare c digits hc hne hrow =>
    obtain ⟨x, xs, hcons⟩ := List.exists_cons_of_ne_nil hne
    have hsign : splitSign digits = (false, digits) := by
      subst hcons
      exact splitSign_append (Or.inl (hrow x List.mem_cons_self)) false
    simp only [exponent?, hsign]
    exact if_pos ⟨hc, hne, List.all_eq_true.mpr hrow⟩
  | plus hc hne hrow => exact if_pos ⟨hc, hne, List.all_eq_true.mpr hrow⟩
  | minus hc hne hrow => exact if_pos ⟨hc, hne, List.all_eq_true.mpr hrow⟩

theorem decimal?_spelled (h : Spells text d) : decimal? text = some d := by
  cases h with
  | @plain whole power e hwhole hne hpower =>
    obtain ⟨hdigit, hfraction⟩ := hpower.start
    unfold decimal?
    simp only [Lexeme.takeWhile_append_eq_left.mpr ⟨hwhole, hdigit⟩, Lexeme.dropWhile_append_eq_right hwhole hdigit,
      hfraction, hne, false_and, if_false, exponent?_power hpower]
    simp
  | @pointed whole part power e hwhole hpart hne hpower =>
    have hpoint : Lexeme.startsWith Text.isDigit ('.' :: (part ++ power)) = false := rfl
    have hfraction : fraction ('.' :: (part ++ power)) = (part, power) :=
      Prod.ext (Lexeme.takeWhile_append_eq_left.mpr ⟨hpart, hpower.start.1⟩)
        (Lexeme.dropWhile_append_eq_right hpart hpower.start.1)
    unfold decimal?
    simp only [Lexeme.takeWhile_append_eq_left.mpr ⟨hwhole, hpoint⟩, Lexeme.dropWhile_append_eq_right hwhole hpoint,
      hfraction, hne, if_false, exponent?_power hpower]
    rfl

theorem toLower_of_digit (h : Text.isDigit c = true) : c.toLower = c := by
  by_cases hc : 65 ≤ c.toNat ∧ c.toNat ≤ 90
  · rw [Lexeme.not_digit_of_ascii (by omega) (by omega)] at h
    cases h
  · unfold Char.toLower
    rw [dif_neg]
    simpa [UInt32.le_iff_toNat_le] using hc

/-- A spelling is no word without digits, in any case. -/
theorem Spells.ne_word (h : Spells text d) {word : String} (hword : word.toList.any Text.isDigit = false) :
    String.ofList (text.map Char.toLower) ≠ word := by
  intro heq
  obtain ⟨-, c, hc, hdigit⟩ := h.head
  have hmem : c ∈ text.map Char.toLower := List.mem_map.mpr ⟨c, hc, toLower_of_digit hdigit⟩
  subst heq
  rw [String.toList_ofList] at hword
  exact List.any_eq_false.mp hword c hmem hdigit

theorem not_blank_of_spelling (h : InSpelling c) : Text.isNumberBlank c = false := by
  rcases h with h | h
  · cases hb : Text.isNumberBlank c with
    | false => rfl
    | true =>
      have hbarrier := (Lexeme.blank_spec (c := c) (by simp [Text.isBlank, hb])).1
      simp [Lexeme.isBarrier, h] at hbarrier
  · have hall : marks.all (fun m => !Text.isNumberBlank m) = true := by decide
    simpa using List.all_eq_true.mp hall c h

/-- A spelled number reads as the number nearest to its decimal. -/
theorem number?_spelled (negative : Bool) (h : Spells text d) :
    number? (signText negative ++ text) = some (d.toBinary64 negative) := by
  obtain ⟨⟨c, rest, hcons, hc⟩, -⟩ := h.head
  have hblank : ∀ x ∈ signText negative ++ text, Text.isNumberBlank x = false := by
    refine List.forall_mem_append.mpr ⟨?_, fun x hx => not_blank_of_spelling (h.chars x hx)⟩
    cases negative with
    | false => exact List.forall_mem_nil _
    | true => exact List.forall_mem_singleton.mpr (by decide)
  have hsign : splitSign (signText negative ++ text) = (negative, text) := by
    subst hcons
    exact splitSign_append hc negative
  have hjoin : joinDigits false text = some text := by
    refine joinDigits_eq_self (fun hmem => ?_) false
    rcases h.chars _ hmem with hx | hx
    · revert hx; decide
    · revert hx; decide
  have hinfinite : ¬(String.ofList (text.map Char.toLower) = "inf" ∨ String.ofList (text.map Char.toLower) = "infinity") :=
    not_or.mpr ⟨h.ne_word (by decide), h.ne_word (by decide)⟩
  rw [number?, trim_eq_self hblank, hsign]
  show unsigned? negative text = _
  rw [unsigned?, if_neg hinfinite, if_neg (h.ne_word (by decide)), hjoin, Option.bind_some, decimal?_spelled h]
  rfl

end Reading

/-! ## Nothing else is cut as a number -/

namespace Lexeme

open Reading (Power Spells)

theorem exists_power (cs : List Char) : ∃ e, Power (exponent cs) e := by
  by_cases hne : exponent cs = []
  · rw [hne]
    exact ⟨0, .none⟩
  · obtain ⟨c, s, digits, r, hcut, hc, hs, hdigits, hall, hr⟩ := exists_exponent hne
    subst hcut
    rw [exponent_whole hc hs hdigits hall hr]
    rcases hs with hs | hs | hs
    · subst hs
      exact ⟨_, .bare hc hdigits hall⟩
    · subst hs
      exact ⟨_, .plus hc hdigits hall⟩
    · subst hs
      exact ⟨_, .minus hc hdigits hall⟩

/-- A number is a spelling and the letters behind it. -/
theorem exists_spelled {cs text : List Char} (h : number? cs = some text) :
    ∃ spelled letters d, text = spelled ++ letters ∧ Spells spelled d ∧ ∀ c ∈ letters, isSuffix c = true := by
  obtain ⟨m, r, hm, hcs, htext⟩ := number?_eq_some h
  rw [hcs] at hm
  obtain ⟨e, hpower⟩ := exists_power r
  have hletters : ∀ c ∈ suffix (r.drop (exponent r).length), isSuffix c = true :=
    fun c hc => (List.mem_filter.mp hc).2
  rcases mantissa?_spec hm with ⟨hne, hrow, -⟩ | ⟨whole, part, hcut, hwhole, hpart, hne, -⟩
  · exact ⟨m ++ exponent r, _, _, htext, .plain hrow hne hpower, hletters⟩
  · subst hcut
    refine ⟨whole ++ '.' :: (part ++ exponent r), _, _, ?_, .pointed hwhole hpart hne hpower, hletters⟩
    simp [htext]

theorem not_suffix_of_spelling {c : Char} (h : Reading.InSpelling c) : isSuffix c = false := by
  cases hs : isSuffix c with
  | false => rfl
  | true =>
    have hc : c ∈ ['f', 'F', 'h', 'H'] := by simpa [isSuffix, or_assoc] using hs
    have hall : ['f', 'F', 'h', 'H'].all (fun s => !Text.isDigit s && !Reading.marks.contains s) = true := by decide
    have hneither := List.all_eq_true.mp hall c hc
    rcases h with h | h
    · simp [h] at hneither
    · simp [h] at hneither

/-- A number without the letters at its end is a spelling. -/
theorem spells_trimEnd {cs text : List Char} (h : number? cs = some text) : ∃ d, Spells (Text.trimEnd isSuffix text) d := by
  obtain ⟨spelled, letters, d, htext, hspells, hletters⟩ := exists_spelled h
  rw [htext, Text.trimEnd_append (fun c hc => not_suffix_of_spelling (hspells.chars c hc)) hletters]
  exact ⟨d, hspells⟩

end Lexeme

end ShaderLoom
