/-
  ShaderLoom.Proofs.Lexeme.Transport — the first lexeme by its first character, and rows of
  lexemes carried from one text behind them to another.

  The first character decides what is read (`first_of_blank`, `first_of_nameStart`,
  `first_of_numeral`, `first_slash`, `first_of_plain`). From these: a lexeme that stands before
  `v` stands before every `w` that mimics it (`Stands.transport`), and so does a row
  (`Row.transport`).
-/

import ShaderLoom.Proofs.Lexeme.Lookahead

namespace ShaderLoom.Lexeme

open ShaderLoom.Text

/-! ## The first character -/

theorem blank_ne_slash {c : Char} (h : isBlank c = true) : c ≠ '/' := by
  intro heq
  subst heq
  revert h
  decide

theorem nameStart_cases {c : Char} (h : isNameStart c = true) :
    (97 ≤ c.toNat ∧ c.toNat ≤ 122) ∨ (65 ≤ c.toNat ∧ c.toNat ≤ 90) ∨ c.toNat = 95 := by
  simp only [isNameStart, isAsciiLetter, Bool.or_eq_true, Bool.and_eq_true, decide_eq_true_eq, beq_iff_eq,
    Char.le_def, UInt32.le_iff_toNat_le] at h
  rcases h with (h | h) | rfl
  · exact Or.inl h
  · exact Or.inr (Or.inl h)
  · exact Or.inr (Or.inr rfl)

theorem not_blank_of_nameStart {c : Char} (h : isNameStart c = true) : isBlank c = false := by
  have hc := nameStart_cases h
  have hspace : (c == ' ') = false := by
    rw [beq_eq_false_iff_ne]
    intro heq
    subst heq
    revert hc
    decide
  simp only [isBlank, isNumberBlank, isWideBlank, hspace, Bool.or_eq_false_iff, Bool.and_eq_false_iff,
    decide_eq_false_iff_not, beq_eq_false_iff_ne, true_and]
  omega

theorem not_digit_of_ascii {c : Char} (hascii : c.toNat < 128) (h : ¬(48 ≤ c.toNat ∧ c.toNat ≤ 57)) :
    isDigit c = false := by
  have hdigit : ¬('0' ≤ c ∧ c ≤ '9') := by simpa [Char.le_def, UInt32.le_iff_toNat_le, ← Char.toNat_val] using h
  simp [isDigit, digitValue?, hdigit, hascii]

theorem not_digit_of_nameStart {c : Char} (h : isNameStart c = true) : isDigit c = false := by
  have hc := nameStart_cases h
  exact not_digit_of_ascii (by omega) (by omega)

theorem isWord_of_nameStart {c : Char} (h : isNameStart c = true) : isWord c = true := by
  have hc := nameStart_cases h
  rw [isWord, if_pos (by omega), h, Bool.true_or]

/-- Neither the start of a longer lexeme nor a blank. -/
def isPlain (c : Char) : Bool := !isBlank c && !isNameStart c && !isDigit c && c != '.' && c != '/'

theorem comment?_cons {c : Char} (h : c ≠ '/') (rest : List Char) : comment? (c :: rest) = none := by
  unfold comment?
  split <;> simp_all

theorem mantissa?_cons {c : Char} (hdigit : isDigit c = false) (hpoint : c ≠ '.') (rest : List Char) :
    mantissa? (c :: rest) = none := by
  unfold mantissa?
  simp [hdigit]
  split <;> simp_all

theorem number?_cons {c : Char} (hdigit : isDigit c = false) (hpoint : c ≠ '.') (rest : List Char) :
    number? (c :: rest) = none := by
  simp [number?, mantissa?_cons hdigit hpoint]

theorem first_of_blank {c : Char} (h : isBlank c = true) (rest : List Char) :
    first c rest = (.space, c :: rest.takeWhile isBlank) := by
  simp [first, comment?_cons (blank_ne_slash h), h]

theorem first_of_nameStart {c : Char} (h : isNameStart c = true) (rest : List Char) :
    first c rest = (.name, c :: rest.takeWhile isWord) := by
  have hslash : c ≠ '/' := by intro heq; subst heq; revert h; decide
  have hpoint : c ≠ '.' := by intro heq; subst heq; revert h; decide
  simp [first, comment?_cons hslash, not_blank_of_nameStart h,
    number?_cons (not_digit_of_nameStart h) hpoint, h]

theorem first_of_plain {c : Char} (h : isPlain c = true) (rest : List Char) :
    first c rest = (.mark, [c]) := by
  simp only [isPlain, Bool.and_eq_true, Bool.not_eq_true', bne_iff_ne] at h
  obtain ⟨⟨⟨⟨hblank, hname⟩, hdigit⟩, hpoint⟩, hslash⟩ := h
  simp [first, comment?_cons hslash, hblank, number?_cons hdigit hpoint, hname]

theorem first_slash (rest : List Char) :
    first '/' rest = ((comment? ('/' :: rest)).map (.comment, ·)).getD (.mark, ['/']) := by
  have hnumber : number? ('/' :: rest) = none := number?_cons (by decide) (by decide) rest
  cases h : comment? ('/' :: rest) with
  | none => simp [first, h, hnumber, show isBlank '/' = false by decide,
    show isNameStart '/' = false by decide]
  | some text => simp [first, h]

theorem first_of_numeral {c : Char} (h : isDigit c = true ∨ c = '.') (hblank : isBlank c = false)
    (rest : List Char) :
    first c rest = ((number? (c :: rest)).map (.number, ·)).getD (.mark, [c]) := by
  have hslash : c ≠ '/' := by
    intro heq
    subst heq
    rcases h with h | h
    · revert h; decide
    · revert h; decide
  have hname : isNameStart c = false := by
    cases hn : isNameStart c with
    | false => rfl
    | true =>
      rcases h with h | rfl
      · rw [not_digit_of_nameStart hn] at h; cases h
      · revert hn; decide
  cases hnum : number? (c :: rest) with
  | none => simp [first, comment?_cons hslash, hblank, hnum, hname]
  | some text => simp [first, comment?_cons hslash, hblank, hnum]

theorem first_char_cases (c : Char) :
    isBlank c = true ∨ isNameStart c = true ∨ c = '/' ∨
      ((isDigit c = true ∨ c = '.') ∧ isBlank c = false) ∨ isPlain c = true := by
  cases hb : isBlank c
  · cases hn : isNameStart c
    · by_cases hs : c = '/'
      · exact Or.inr (Or.inr (Or.inl hs))
      · by_cases hd : isDigit c = true ∨ c = '.'
        · exact Or.inr (Or.inr (Or.inr (Or.inl ⟨hd, rfl⟩)))
        · refine Or.inr (Or.inr (Or.inr (Or.inr ?_)))
          simp only [not_or, Bool.not_eq_true] at hd
          simp [isPlain, hb, hn, hs, hd]
    · exact Or.inr (Or.inl rfl)
  · exact Or.inl rfl

/-! ## Numbers -/

theorem exists_run (p : Char → Bool) (cs : List Char) :
    ∃ a r, cs = a ++ r ∧ (∀ c ∈ a, p c = true) ∧ startsWith p r = false := by
  have h : cs.takeWhile p ++ cs.dropWhile p = cs := List.takeWhile_append_dropWhile
  exact ⟨_, _, h.symm, takeWhile_append_eq_left.mp (by rw [h])⟩

theorem mantissa?_whole {a r : List Char} (ha : ∀ c ∈ a, isDigit c = true)
    (hr : startsWith isDigit r = false)
    (hpoint : startsWith (· == '.') r = false) : mantissa? (a ++ r) = if a = [] then none else some a := by
  unfold mantissa?
  simp only [takeWhile_append_eq_left.mpr ⟨ha, hr⟩, List.drop_left]
  split
  · simp at hpoint
  · rfl

theorem mantissa?_point {a r : List Char} (ha : ∀ c ∈ a, isDigit c = true) :
    mantissa? (a ++ '.' :: r) =
      if a = [] ∧ r.takeWhile isDigit = [] then none else some (a ++ '.' :: r.takeWhile isDigit) := by
  unfold mantissa?
  simp only [takeWhile_append_eq_left.mpr ⟨ha, show startsWith isDigit ('.' :: r) = false from rfl⟩,
    List.drop_left]

/-- The digits of a mantissa, and what does not stand behind it. -/
theorem mantissa?_spec {m v : List Char} (h : mantissa? (m ++ v) = some m) :
    (m ≠ [] ∧ (∀ c ∈ m, isDigit c = true) ∧ startsWith isDigit v = false ∧ startsWith (· == '.') v = false) ∨
      ∃ whole part, m = whole ++ '.' :: part ∧ (∀ c ∈ whole, isDigit c = true) ∧ (∀ c ∈ part, isDigit c = true) ∧
        ¬(whole = [] ∧ part = []) ∧ startsWith isDigit v = false := by
  obtain ⟨whole, r, hcut, hwhole, hr⟩ := exists_run isDigit (m ++ v)
  rw [hcut] at h
  cases hp : startsWith (· == '.') r with
  | false =>
    rw [mantissa?_whole hwhole hr hp] at h
    by_cases hne : whole = []
    · simp [hne] at h
    · rw [if_neg hne] at h
      obtain rfl := Option.some.inj h
      obtain rfl := List.append_cancel_left hcut
      exact Or.inl ⟨hne, hwhole, hr, hp⟩
  | true =>
    cases r with
    | nil => cases hp
    | cons c r =>
      obtain rfl : c = '.' := eq_of_beq hp
      obtain ⟨part, q, hrun, hpart, hq⟩ := exists_run isDigit r
      rw [mantissa?_point hwhole, hrun, takeWhile_append_eq_left.mpr ⟨hpart, hq⟩] at h
      by_cases hne : whole = [] ∧ part = []
      · simp [hne] at h
      · rw [if_neg hne] at h
        obtain rfl := Option.some.inj h
        have hv : v = q := by simpa [hrun] using hcut
        exact Or.inr ⟨whole, part, rfl, hwhole, hpart, hne, hv ▸ hq⟩

theorem mantissa?_transport {m v w : List Char} (h : mantissa? (m ++ v) = some m)
    (hdigit : startsWith isDigit v = false → startsWith isDigit w = false)
    (hpoint : startsWith (· == '.') v = false → startsWith (· == '.') w = false) :
    mantissa? (m ++ w) = some m := by
  rcases mantissa?_spec h with ⟨hne, hrow, hv, hp⟩ | ⟨whole, part, hcut, hwhole, hpart, hne, hv⟩
  · rw [mantissa?_whole hrow (hdigit hv) (hpoint hp), if_neg hne]
  · subst hcut
    rw [List.append_assoc, List.cons_append, mantissa?_point hwhole,
      takeWhile_append_eq_left.mpr ⟨hpart, hdigit hv⟩, if_neg hne]

theorem sign_of_digit {c : Char} (h : isDigit c = true) (r : List Char) : sign (c :: r) = [] := by
  unfold sign
  split
  · rename_i hc
    rw [(List.cons.inj hc).1] at h
    exact absurd h (by decide)
  · rename_i hc
    rw [(List.cons.inj hc).1] at h
    exact absurd h (by decide)
  · rfl

theorem sign_cases (cs : List Char) : sign cs = [] ∨ sign cs = ['+'] ∨ sign cs = ['-'] := by
  unfold sign
  split <;> simp

theorem exponent_whole {c : Char} {s digits r : List Char} (hc : c = 'e' ∨ c = 'E')
    (hs : s = [] ∨ s = ['+'] ∨ s = ['-']) (hne : digits ≠ []) (hall : ∀ d ∈ digits, isDigit d = true)
    (hr : startsWith isDigit r = false) : exponent (c :: (s ++ (digits ++ r))) = c :: (s ++ digits) := by
  have hsign : sign (s ++ (digits ++ r)) = s := by
    obtain ⟨d, ds, rfl⟩ := List.exists_cons_of_ne_nil hne
    rcases hs with rfl | rfl | rfl
    · exact sign_of_digit (hall d (by simp)) _
    · rfl
    · rfl
  simp only [exponent, hsign, List.drop_left, takeWhile_append_eq_left.mpr ⟨hall, hr⟩,
    if_pos (And.intro hc hne)]

theorem exists_exponent {cs : List Char} (h : exponent cs ≠ []) :
    ∃ c s digits r, cs = c :: (s ++ (digits ++ r)) ∧ (c = 'e' ∨ c = 'E') ∧ (s = [] ∨ s = ['+'] ∨ s = ['-']) ∧
      digits ≠ [] ∧ (∀ d ∈ digits, isDigit d = true) ∧ startsWith isDigit r = false := by
  cases cs with
  | nil => exact absurd rfl h
  | cons c x =>
    obtain ⟨hc, hsigned⟩ := Mimics.exponent_cons_ne_nil.mp h
    obtain ⟨digits, r, hcut, hall, hr⟩ := exists_run isDigit (x.drop (sign x).length)
    refine ⟨c, sign x, digits, r, ?_, hc, sign_cases x, ?_, hall, hr⟩
    · rw [← hcut, sign_append_drop]
    · intro heq
      subst heq
      rw [startsSigned, hcut, List.nil_append, hr] at hsigned
      cases hsigned

theorem exponent_transport {e v w : List Char} (h : exponent (e ++ v) = e) (hne : e ≠ [])
    (hdigit : startsWith isDigit v = false → startsWith isDigit w = false) : exponent (e ++ w) = e := by
  obtain ⟨c, s, digits, r, hcut, hc, hs, hdigits, hall, hr⟩ := exists_exponent (by rw [h]; exact hne)
  rw [hcut, exponent_whole hc hs hdigits hall hr] at h
  subst h
  have hv : v = r := by simpa using hcut
  rw [List.cons_append, List.append_assoc, exponent_whole hc hs hdigits hall (hdigit (hv ▸ hr))]

theorem suffix_append {s v : List Char} : suffix (s ++ v) = s ↔
    (s = [] ∧ startsWith isSuffix v = false) ∨ ∃ c, s = [c] ∧ isSuffix c = true := by
  cases s with
  | nil => cases v with
    | nil => simp [suffix]
    | cons c v => by_cases h : isSuffix c <;> simp [suffix, h]
  | cons c s =>
    by_cases h : isSuffix c = true
    · simp only [suffix, List.cons_append, List.take_succ_cons, List.take_zero, List.filter_cons, h, if_true,
        List.filter_nil, List.cons.injEq, true_and, reduceCtorEq, false_and, false_or]
      constructor
      · intro heq
        subst heq
        exact ⟨c, ⟨rfl, rfl⟩, h⟩
      · intro hparts
        obtain ⟨_, ⟨rfl, rfl⟩, -⟩ := hparts
        rfl
    · simp [suffix, h]

/-- A number that ends before `v` ends before `w`. -/
theorem number?_transport {text v w : List Char} (h : number? (text ++ v) = some text) (hm : Mimics v w) :
    number? (text ++ w) = some text := by
  obtain ⟨m, r, hmant, hcut, htext⟩ := number?_eq_some h
  generalize he : exponent r = e at htext
  generalize hs : suffix (r.drop e.length) = s at htext
  have hr : r = e ++ (s ++ v) := by
    rw [htext, List.append_assoc, List.append_assoc] at hcut
    exact (List.append_cancel_left hcut).symm
  subst htext hr
  rw [List.drop_left] at hs
  have hdigit : startsWith isDigit v = false → startsWith isDigit w = false :=
    hm.not_starts (by simp [asked])
  have hsuffix : suffix (s ++ w) = s := by
    rcases suffix_append.mp hs with ⟨rfl, hv⟩ | hc
    · exact suffix_append.mpr (Or.inl ⟨rfl, hm.not_starts (by simp [asked]) hv⟩)
    · exact suffix_append.mpr (Or.inr hc)
  have hexp : exponent (e ++ (s ++ w)) = e := by
    by_cases hne : e = []
    · subst hne
      rcases suffix_append.mp hs with ⟨rfl, -⟩ | ⟨c, rfl, hc⟩
      · exact hm.no_power he
      · refine Classical.byContradiction fun hx => ?_
        rcases (Mimics.exponent_cons_ne_nil.mp hx).1 with rfl | rfl <;> exact absurd hc (by decide)
    · refine exponent_transport he hne fun hv => ?_
      cases s with
      | nil => exact hdigit hv
      | cons c s => exact hv
  have hmant' : mantissa? (m ++ (e ++ (s ++ w))) = some m := by
    rw [List.append_assoc, List.append_assoc] at hmant
    refine mantissa?_transport hmant ?_ ?_
    · cases e with
      | nil => cases s with
        | nil => exact hdigit
        | cons c s => exact id
      | cons c e => exact id
    · cases e with
      | nil => cases s with
        | nil => exact hm.not_starts (by simp [asked])
        | cons c s => exact id
      | cons c e => exact id
  have := number?_of_mantissa? hmant'
  rwa [hexp, List.drop_left, hsuffix, ← List.append_assoc, ← List.append_assoc] at this

theorem no_number?_transport {c : Char} {v w : List Char} (hc : isDigit c = true ∨ c = '.')
    (h : number? (c :: v) = none) (hm : Mimics v w) : number? (c :: w) = none := by
  have hnone : ∀ u, number? (c :: u) = none ↔ mantissa? (c :: u) = none := by simp [number?]
  rw [hnone] at h ⊢
  rcases hc with hc | rfl
  · -- a digit always starts a number
    unfold mantissa? at h
    simp only [List.takeWhile_cons_of_pos hc, reduceCtorEq, false_and, if_false] at h
    split at h <;> cases h
  · have hv := mantissa?_point (a := []) (r := v) (by simp)
    have hw := mantissa?_point (a := []) (r := w) (by simp)
    simp only [List.nil_append, true_and] at hv hw
    rw [hv] at h
    split at h
    · rename_i hrun
      rw [hw, if_pos (takeWhile_eq_nil.mpr (hm.not_starts (by simp [asked]) (takeWhile_eq_nil.mp hrun)))]
    · cases h

/-- A number has no barrier in it. -/
theorem number?_no_barrier {b : Char} (hb : isBarrier b = true) {cs text : List Char}
    (h : number? cs = some text) :
    b ∉ text := by
  simp only [isBarrier, Bool.and_eq_true, Bool.not_eq_true', List.contains_eq_mem, decide_eq_false_iff_not,
    List.mem_cons, List.not_mem_nil, or_false, not_or] at hb
  obtain ⟨⟨hdigit, hsuffix⟩, he, hE, hplus, hminus, hpoint, -, -⟩ := hb
  have hrun : ∀ {l : List Char}, (∀ c ∈ l, isDigit c = true) → b ∉ l := by
    intro l hl hmem
    rw [hl b hmem] at hdigit
    cases hdigit
  have hmantissa : ∀ {m}, mantissa? cs = some m → b ∉ m := by
    intro m hm
    obtain ⟨a, r, rfl, ha, hr⟩ := exists_run isDigit cs
    cases hp : startsWith (· == '.') r with
    | false =>
      rw [mantissa?_whole ha hr hp] at hm
      split at hm
      · cases hm
      · exact Option.some.inj hm ▸ hrun ha
    | true =>
      obtain ⟨r, rfl⟩ : ∃ r', r = '.' :: r' := by
        cases r with
        | nil => simp at hp
        | cons c r => exact ⟨r, by simpa using hp⟩
      rw [mantissa?_point ha] at hm
      split at hm
      · cases hm
      · obtain rfl := Option.some.inj hm
        have hpart : b ∉ r.takeWhile isDigit := hrun fun c hc => List.all_eq_true.mp List.all_takeWhile c hc
        simp [hrun ha, hpart, hpoint]
  obtain ⟨m, r, hm, -, rfl⟩ := number?_eq_some h
  have hexp : b ∉ exponent r := by
    by_cases hne : exponent r = []
    · simp [hne]
    · obtain ⟨c, s, digits, r', rfl, hc, hs, hdigits, hall, hr⟩ := exists_exponent hne
      rw [exponent_whole hc hs hdigits hall hr]
      rcases hc with rfl | rfl <;> rcases hs with rfl | rfl | rfl <;> simp [hrun hall, he, hE, hplus, hminus]
  have hsuffix' : ∀ cs, b ∉ suffix cs := by
    intro cs hmem
    have := (List.mem_filter.mp hmem).2
    rw [hsuffix] at this
    cases this
  simp [hmantissa hm, hexp, hsuffix']

/-! ## Comments -/

/-- What ends a line comment: nothing more, or a line end. -/
def endsLine (cs : List Char) : Prop := startsWith (· != '\n') cs = false

theorem endsLine_dropWhile (r : List Char) : endsLine (r.dropWhile (· != '\n')) := by
  induction r with
  | nil => rfl
  | cons c r ih =>
    by_cases h : c = '\n'
    · simp [endsLine, h]
    · simpa [endsLine, h] using ih

theorem comment?_transport {t v w : List Char} (h : comment? ('/' :: (t ++ v)) = some ('/' :: t))
    (hline : endsLine v → endsLine w) : comment? ('/' :: (t ++ w)) = some ('/' :: t) := by
  cases t with
  | nil =>
    unfold comment? at h
    split at h <;> simp at h
  | cons d t =>
    unfold comment? at h
    split at h
    · rename_i r hr
      obtain ⟨rfl, rfl⟩ : d = '/' ∧ t ++ v = r := by simpa using hr
      have hrun := takeWhile_append_eq_left.mp (by simpa using h : (t ++ v).takeWhile (· != '\n') = t)
      simp only [comment?, List.cons_append, takeWhile_append_eq_left.mpr ⟨hrun.1, hline hrun.2⟩]
    · rename_i r hr
      obtain ⟨rfl, rfl⟩ : d = '*' ∧ t ++ v = r := by simpa using hr
      have hbody : blockEnd? (t ++ v) = some t := by simpa using h
      simp only [comment?, List.cons_append, blockEnd?_append (blockEnd?_self hbody), Option.map_some]
    · cases h

theorem no_comment?_transport {v w : List Char} (h : comment? ('/' :: v) = none) (hm : Mimics v w) :
    comment? ('/' :: w) = none := by
  unfold comment?
  split
  · rename_i r hr
    have : startsWith (· == '/') v = true := hm.starts _ (by simp [asked]) (by simp [(List.cons.inj hr).2])
    cases v with
    | nil => simp at this
    | cons c v =>
      obtain rfl : c = '/' := by simpa using this
      simp [comment?] at h
  · rename_i r hr
    obtain ⟨y, rfl, hy⟩ := hm.star r (List.cons.inj hr).2
    have hv : blockEnd? y = none := by simpa [comment?] using h
    have hw : blockEnd? r = none := not_closes.mp fun hc => not_closes.mpr hv (hy hc)
    simp [hw]
  · rfl

/-! ## Lexemes and rows -/

theorem Stands.transport {x : Lexeme} {v w : List Char} (h : Stands x v) (hm : Mimics v w)
    (hline : x.1 = .comment → endsLine v → endsLine w) : Stands x w := by
  obtain ⟨c, t, ht, hf⟩ := h
  refine ⟨c, t, ht, ?_⟩
  rcases first_char_cases c with hc | hc | rfl | ⟨hc, hblank⟩ | hc
  · rw [first_of_blank hc] at hf ⊢
    subst hf
    have hrun := takeWhile_append_eq_left.mp (List.cons.inj ht).2
    rw [takeWhile_append_eq_left.mpr ⟨hrun.1, hm.not_starts (by simp [asked]) hrun.2⟩, (List.cons.inj ht).2]
  · rw [first_of_nameStart hc] at hf ⊢
    subst hf
    have hrun := takeWhile_append_eq_left.mp (List.cons.inj ht).2
    rw [takeWhile_append_eq_left.mpr ⟨hrun.1, hm.not_starts (by simp [asked]) hrun.2⟩, (List.cons.inj ht).2]
  · rw [first_slash] at hf ⊢
    cases hcom : comment? ('/' :: (t ++ v)) with
    | none =>
      rw [hcom] at hf
      subst hf
      obtain ⟨-, rfl⟩ := List.cons.inj ht
      rw [List.nil_append, no_comment?_transport hcom hm]
    | some text =>
      rw [hcom] at hf
      subst hf
      obtain rfl : text = '/' :: t := ht
      rw [comment?_transport hcom (hline rfl)]
  · rw [first_of_numeral hc hblank] at hf ⊢
    cases hn : number? (c :: (t ++ v)) with
    | none =>
      rw [hn] at hf
      subst hf
      obtain ⟨-, rfl⟩ := List.cons.inj ht
      rw [List.nil_append, no_number?_transport hc hn hm]
    | some text =>
      rw [hn] at hf
      subst hf
      obtain rfl : text = c :: t := ht
      rw [← List.cons_append, number?_transport (by exact hn) hm]
  · rw [first_of_plain hc] at hf ⊢
    exact hf

theorem Row.transport {xs : List Lexeme} {v w : List Char} (h : Row xs v) (hm : Mimics v w)
    (hline : ∀ x ∈ xs.getLast?, x.1 = .comment → endsLine v → endsLine w) : Row xs w := by
  induction xs with
  | nil => trivial
  | cons x xs ih =>
    refine ⟨h.1.transport (hm.append _) fun hx => ?_, ih h.2 fun y hy => ?_⟩
    · cases xs with
      | nil => exact hline x (by simp) hx
      | cons y ys =>
        obtain ⟨c, t, ht⟩ := List.exists_cons_of_ne_nil (h.2.ne_nil y (by simp))
        simp [endsLine, ht]
    · refine hline y ?_
      cases xs with
      | nil => simp at hy
      | cons z zs => simpa using hy

/-- A row behind a barrier: only what closes a comment counts. -/
theorem Row.behind {xs : List Lexeme} {v w : List Char} {b : Char} (hb : isBarrier b = true)
    (h : Row xs (b :: v))
    (closes : Closes w → Closes v) : Row xs (b :: w) :=
  h.transport (.behind hb closes) fun _ _ _ => id

end ShaderLoom.Lexeme
