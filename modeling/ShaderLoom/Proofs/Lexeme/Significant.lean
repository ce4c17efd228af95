/-
  ShaderLoom.Proofs.Lexeme.Significant — the lexemes of a text without its blanks and comments.

  Blanks and comments leave no trace (`significant_blank`, `Row.significant_gap`), a name and a
  mark leave themselves. A text is sealed (`Sealed`) when nothing behind it can change its
  significant lexemes; sealed texts compose, and a row that stands before the end of a comment is
  sealed by the barrier behind it (`sealed_of_row`).

  `resync`: behind a line end, a text that closes no comment is read as if it stood alone,
  whatever comes before that line end.
-/

import ShaderLoom.Proofs.Lexeme.Transport

namespace ShaderLoom.Lexeme

open ShaderLoom.Text

def isSignificant (x : Lexeme) : Bool := x.1 != .comment && x.1 != .space

def significant (cs : List Char) : List Lexeme := (lexemes cs).filter isSignificant

theorem significant_tokens (source : String) :
    (Token.significant (Token.tokenize source)).map Token.lexeme = significant source.toList := by
  rw [significant, lexemes, List.filter_map]
  rfl

theorem Stands.significant_append {x : Lexeme} {v : List Char} (h : Stands x v) :
    significant (x.2 ++ v) = [x].filter isSignificant ++ significant v := by
  rw [significant, h.lexemes_append, ← List.singleton_append, List.filter_append]
  rfl

theorem Row.significant_append {xs : List Lexeme} {v : List Char} (h : Row xs v) :
    significant (joined xs ++ v) = xs.filter isSignificant ++ significant v := by
  rw [significant, h.lexemes_append, List.filter_append]
  rfl

@[simp] theorem significant_nil : significant [] = [] := rfl

theorem significant_blank {c : Char} (h : isBlank c = true) (cs : List Char) :
    significant (c :: cs) = significant cs := by
  have hskip : ∀ c cs, isBlank c = true → significant (c :: cs) = significant (cs.dropWhile isBlank) := by
    intro c cs h
    rw [significant, lexemes_cons, first_of_blank h, List.length_cons, List.drop_succ_cons,
      drop_takeWhile_length, List.filter_cons_of_neg (by simp [isSignificant])]
    rfl
  rw [hskip c cs h]
  cases cs with
  | nil => rfl
  | cons d cs =>
    by_cases hd : isBlank d = true
    · rw [hskip d cs hd, List.dropWhile_cons_of_pos hd]
    · rw [List.dropWhile_cons_of_neg hd]

theorem significant_blanks {a : List Char} (h : ∀ c ∈ a, isBlank c = true) (cs : List Char) :
    significant (a ++ cs) = significant cs := by
  induction a with
  | nil => rfl
  | cons c a ih =>
    rw [List.cons_append, significant_blank (h c (by simp)), ih fun d hd => h d (by simp [hd])]

theorem significant_plain {c : Char} (h : isPlain c = true) (cs : List Char) :
    significant (c :: cs) = (.mark, [c]) :: significant cs := by
  have : Stands (.mark, [c]) cs := ⟨c, [], rfl, first_of_plain h _⟩
  exact this.significant_append

/-- The text of a name. -/
def IsName : List Char → Prop
  | [] => False
  | c :: cs => isNameStart c = true ∧ ∀ d ∈ cs, isWord d = true

instance : (cs : List Char) → Decidable (IsName cs)
  | [] => inferInstanceAs (Decidable False)
  | c :: cs => decidable_of_iff ((isNameStart c && cs.all isWord) = true) (by simp [IsName])

theorem significant_name {n v : List Char} (h : IsName n) (hv : startsWith isWord v = false) :
    significant (n ++ v) = (.name, n) :: significant v := by
  cases n with
  | nil => exact h.elim
  | cons c n =>
    have : Stands (.name, c :: n) v :=
      ⟨c, n, rfl, by rw [first_of_nameStart h.1, takeWhile_append_eq_left.mpr ⟨h.2, hv⟩]⟩
    exact this.significant_append

theorem Stands.of_name {x : Lexeme} {v : List Char} (h : Stands x v) (hx : x.1 = .name) : IsName x.2 := by
  obtain ⟨c, t, ht, hf⟩ := h
  rcases first_char_cases c with hc | hc | rfl | ⟨hc, hblank⟩ | hc
  · rw [first_of_blank hc] at hf
    subst hf
    cases hx
  · rw [first_of_nameStart hc] at hf
    subst hf
    exact ⟨hc, fun d hd => List.all_eq_true.mp List.all_takeWhile d hd⟩
  · rw [first_slash] at hf
    cases hcom : comment? ('/' :: (t ++ v)) <;> rw [hcom] at hf <;> subst hf <;> cases hx
  · rw [first_of_numeral hc hblank] at hf
    cases hn : number? (c :: (t ++ v)) <;> rw [hn] at hf <;> subst hf <;> cases hx
  · rw [first_of_plain hc] at hf
    subst hf
    cases hx

theorem Stands.of_plain {x : Lexeme} {v : List Char} {c : Char} (h : Stands x v) (hx : x.2 = [c])
    (hc : isPlain c = true) : x = (.mark, [c]) := by
  obtain ⟨d, t, ht, hf⟩ := h
  obtain ⟨rfl, rfl⟩ := List.cons.inj (hx.symm.trans ht)
  rw [first_of_plain hc] at hf
  exact hf.symm

/-- A significant lexeme does not end the line. -/
theorem Stands.not_endsLine {x : Lexeme} {v : List Char} (h : Stands x v)
    (hx : isSignificant x = true) (w : List Char) :
    ¬ endsLine (x.2 ++ w) := by
  obtain ⟨c, t, ht, hf⟩ := h
  intro hend
  obtain rfl : c = '\n' := by simpa [endsLine, ht] using hend
  rw [first_of_blank (by decide)] at hf
  subst hf
  cases hx

theorem Row.stands_of_mem {xs : List Lexeme} {v : List Char} (h : Row xs v) {x : Lexeme} (hx : x ∈ xs) :
    ∃ w, Stands x w := by
  induction xs with
  | nil => simp at hx
  | cons y xs ih =>
    rcases List.mem_cons.mp hx with rfl | hx
    · exact ⟨_, h.1⟩
    · exact ih h.2 hx

theorem isName_of_mem {source : String} {t : Token} (h : t ∈ Token.tokenize source) (ht : t.kind = .name) :
    IsName t.text.toList := by
  have hmem : t.lexeme ∈ lexemes source.toList := List.mem_map_of_mem h
  obtain ⟨w, hw⟩ := (row_of_lexemes (List.append_nil (lexemes source.toList)).symm).1.stands_of_mem hmem
  exact hw.of_name ht

theorem significant_lineComment {a v : List Char} (ha : ∀ c ∈ a, c ≠ '\n') (hv : endsLine v) :
    significant ('/' :: '/' :: (a ++ v)) = significant v := by
  have hrun : (a ++ v).takeWhile (· != '\n') = a :=
    takeWhile_append_eq_left.mpr ⟨fun c hc => by simpa using ha c hc, hv⟩
  have : Stands (.comment, '/' :: '/' :: a) v :=
    ⟨'/', '/' :: a, rfl, by rw [first_slash]; simp [comment?, hrun]⟩
  exact this.significant_append

theorem significant_blockComment {body : List Char} (h : blockEnd? body = some body) (v : List Char) :
    significant ('/' :: '*' :: (body ++ v)) = significant v := by
  have : Stands (.comment, '/' :: '*' :: body) v :=
    ⟨'/', '*' :: body, rfl, by rw [first_slash]; simp [comment?, blockEnd?_append h]⟩
  exact this.significant_append

/-! ## Gaps -/

theorem Stands.of_space {x : Lexeme} {v : List Char} (h : Stands x v) (hx : x.1 = .space) :
    ∀ c ∈ x.2, isBlank c = true := by
  obtain ⟨c, t, ht, hf⟩ := h
  rcases first_char_cases c with hc | hc | rfl | ⟨hc, hblank⟩ | hc
  · rw [first_of_blank hc] at hf
    subst hf
    rw [ht]
    intro d hd
    rcases List.mem_cons.mp hd with rfl | hd
    · exact hc
    · exact (takeWhile_append_eq_left.mp (List.cons.inj ht).2).1 d hd
  · rw [first_of_nameStart hc] at hf
    subst hf
    cases hx
  · rw [first_slash] at hf
    cases hcom : comment? ('/' :: (t ++ v)) <;> rw [hcom] at hf <;> subst hf <;> cases hx
  · rw [first_of_numeral hc hblank] at hf
    cases hn : number? (c :: (t ++ v)) <;> rw [hn] at hf <;> subst hf <;> cases hx
  · rw [first_of_plain hc] at hf
    subst hf
    cases hx

theorem Stands.of_comment {x : Lexeme} {v : List Char} (h : Stands x v) (hx : x.1 = .comment) :
    (∃ a, x.2 = '/' :: '/' :: a ∧ (∀ c ∈ a, c ≠ '\n') ∧ endsLine v) ∨
      ∃ body, x.2 = '/' :: '*' :: body ∧ blockEnd? body = some body := by
  obtain ⟨c, t, ht, hf⟩ := h
  rcases first_char_cases c with hc | hc | rfl | ⟨hc, hblank⟩ | hc
  · rw [first_of_blank hc] at hf
    subst hf
    cases hx
  · rw [first_of_nameStart hc] at hf
    subst hf
    cases hx
  · rw [first_slash] at hf
    cases hcom : comment? ('/' :: (t ++ v)) with
    | none =>
      rw [hcom] at hf
      subst hf
      cases hx
    | some text =>
      rw [hcom] at hf
      subst hf
      obtain rfl : text = '/' :: t := ht
      unfold comment? at hcom
      split at hcom
      · rename_i r hr
        obtain rfl := (List.cons.inj (Option.some.inj hcom)).2
        have hr : r.takeWhile (· != '\n') ++ v = r := by simpa using hr
        have hrun := takeWhile_append_eq_left.mp
          (show (r.takeWhile (· != '\n') ++ v).takeWhile (· != '\n') = _ by rw [hr])
        exact Or.inl ⟨_, rfl, fun d hd => by simpa using hrun.1 d hd, hrun.2⟩
      · rename_i r hr
        obtain ⟨body, hbody, htext⟩ := Option.map_eq_some_iff.mp hcom
        obtain rfl := (List.cons.inj htext).2
        have hr : body ++ v = r := by simpa using hr
        exact Or.inr ⟨body, rfl, blockEnd?_self (hr ▸ hbody)⟩
      · cases hcom
  · rw [first_of_numeral hc hblank] at hf
    cases hn : number? (c :: (t ++ v)) <;> rw [hn] at hf <;> subst hf <;> cases hx
  · rw [first_of_plain hc] at hf
    subst hf
    cases hx

/-- Blanks and comments leave no trace before any text, unless the last one is a line comment
that the text would go on. -/
theorem Row.significant_gap {xs : List Lexeme} {v : List Char} (h : Row xs v)
    (hxs : ∀ x ∈ xs, isSignificant x = false) {w : List Char} (hline : endsLine v → endsLine w) :
    significant (joined xs ++ w) = significant w := by
  induction xs with
  | nil => rfl
  | cons x xs ih =>
    rw [joined_cons, List.append_assoc]
    have hrest := ih h.2 fun y hy => hxs y (by simp [hy])
    have hkind : x.1 = .comment ∨ x.1 = .space := by
      have := hxs x (by simp)
      simp only [isSignificant, Bool.and_eq_false_iff, bne_eq_false_iff_eq] at this
      exact this
    rcases hkind with hx | hx
    · rcases h.1.of_comment hx with ⟨a, ha, hnl, hend⟩ | ⟨body, hb, hbody⟩
      · have hend' : endsLine (joined xs ++ w) := by
          cases xs with
          | nil => exact hline hend
          | cons y ys =>
            obtain ⟨c, t, ht⟩ := List.exists_cons_of_ne_nil (h.2.ne_nil y (by simp))
            simpa [endsLine, ht] using hend
        rw [ha, List.cons_append, List.cons_append, significant_lineComment hnl hend', hrest]
      · rw [hb, List.cons_append, List.cons_append, significant_blockComment hbody, hrest]
    · rw [significant_blanks (h.1.of_space hx), hrest]

/-- All blanks there are. -/
def blanks : List Char :=
  [9, 10, 11, 12, 13, 0x1C, 0x1D, 0x1E, 0x1F, 32, 0x85, 0xA0, 0x1680, 0x2000, 0x2001, 0x2002, 0x2003,
    0x2004, 0x2005, 0x2006, 0x2007, 0x2008, 0x2009, 0x200A, 0x2028, 0x2029, 0x202F, 0x205F,
    0x3000].map Char.ofNat

theorem mem_blanks {c : Char} (h : isBlank c = true) : c ∈ blanks := by
  have hc : c = Char.ofNat c.toNat := (Char.ofNat_toNat c).symm
  by_cases hspace : c = ' '
  · subst hspace
    decide
  · rw [hc]
    refine List.mem_map_of_mem ?_
    simp only [isBlank, isNumberBlank, isWideBlank, Bool.or_eq_true, Bool.and_eq_true,
      decide_eq_true_eq, beq_iff_eq, hspace, false_or] at h
    simp only [List.mem_cons, List.not_mem_nil, or_false]
    omega

theorem blank_spec {c : Char} (h : isBlank c = true) : isBarrier c = true ∧ isWord c = false ∧ c ≠ '*' := by
  have hall : blanks.all (fun b => isBarrier b && !isWord b && b != '*') = true := by decide +kernel
  simpa [and_assoc] using List.all_eq_true.mp hall c (mem_blanks h)

/-- Only a run of blanks ends with one, or a line comment. -/
theorem Stands.space_of_blank {x : Lexeme} {v : List Char} (h : Stands x v) (hv : ¬ endsLine v)
    {t : List Char} {b : Char}
    (hx : x.2 = t ++ [b]) (hb : isBlank b = true) : x.1 = .space := by
  obtain ⟨hbarrier, hword, -⟩ := blank_spec hb
  have hmem : b ∈ x.2 := by simp [hx]
  have hsingle : ∀ {c : Char}, x.2 = [c] → isBlank c = true := by
    intro c hc
    rw [hc, List.mem_singleton] at hmem
    exact hmem ▸ hb
  by_cases hkind : x.1 = .comment
  · exfalso
    rcases h.of_comment hkind with ⟨-, -, -, hend⟩ | ⟨body, hbody, hclosed⟩
    · exact hv hend
    · have hlast : x.2.getLast? = some '/' := by
        rw [hbody, List.getLast?_cons, List.getLast?_cons, blockEnd?_getLast? hclosed]
        rfl
      rw [hx, List.getLast?_concat] at hlast
      obtain rfl := Option.some.inj hlast
      exact absurd hb (by decide)
  · obtain ⟨c, u, hu, hf⟩ := h
    rcases first_char_cases c with hc | hc | rfl | ⟨hc, hblank⟩ | hc
    · rw [first_of_blank hc] at hf
      exact hf ▸ rfl
    · exfalso
      rw [first_of_nameStart hc] at hf
      have hall : ∀ d ∈ (u ++ v).takeWhile isWord, isWord d = true :=
        fun d hd => List.all_eq_true.mp List.all_takeWhile d hd
      rw [← hf] at hmem
      rcases List.mem_cons.mp hmem with rfl | hmem
      · rw [not_blank_of_nameStart hc] at hb
        cases hb
      · rw [hall b hmem] at hword
        cases hword
    · exfalso
      rw [first_slash] at hf
      cases hcom : comment? ('/' :: (u ++ v)) with
      | some text => exact hkind (by rw [← hf, hcom]; rfl)
      | none => exact absurd (hsingle (by rw [← hf, hcom]; rfl)) (by decide)
    · exfalso
      rw [first_of_numeral hc hblank] at hf
      cases hn : number? (c :: (u ++ v)) with
      | some text => exact number?_no_barrier hbarrier hn (by rw [← hf, hn] at hmem; exact hmem)
      | none =>
        rw [hsingle (by rw [← hf, hn]; rfl)] at hblank
        cases hblank
    · exfalso
      rw [first_of_plain hc] at hf
      have := hsingle (c := c) (by rw [← hf])
      simp [isPlain, this] at hc

/-- Behind a blank, texts are read alike if they close no more comments. -/
theorem Row.significant_spaced {xs : List Lexeme} {v w : List Char} (h : Row xs v) (hv : ¬ endsLine v)
    (hblank : ∀ c ∈ (joined xs).getLast?, isBlank c = true) (hcloses : Closes w → Closes v) :
    significant (joined xs ++ w) = xs.filter isSignificant ++ significant w := by
  rcases List.eq_nil_or_concat xs with rfl | ⟨ys, x, rfl⟩
  · rfl
  rw [List.concat_eq_append] at h hblank ⊢
  rw [joined_append, joined_cons, joined_nil, List.append_nil] at hblank ⊢
  have hx : Stands x v := h.append_right.1
  obtain ⟨t, b, ht⟩ := List.eq_nil_or_concat x.2 |>.resolve_left (h.append_right.ne_nil x (by simp))
  rw [List.concat_eq_append] at ht
  have hb : isBlank b = true := hblank b (by rw [ht, ← List.append_assoc, List.getLast?_concat]; rfl)
  have hspace := hx.space_of_blank hv ht hb
  have hall := hx.of_space hspace
  have hys : Row ys (x.2 ++ w) := by
    obtain ⟨c, u, hcu⟩ := List.exists_cons_of_ne_nil (h.append_right.ne_nil x (by simp))
    have hrow : Row ys (x.2 ++ v) := by simpa using h.append_left
    rw [hcu] at hrow hall ⊢
    refine hrow.behind (blank_spec (hall c (by simp))).1 fun hc => ?_
    have hstar : '*' ∉ u := fun hmem => (blank_spec (hall '*' (by simp [hmem]))).2.2 rfl
    exact (hcloses (inert_of_no_star hstar w hc)).append_left u
  have hsig : isSignificant x = false := by simp [isSignificant, hspace]
  rw [List.append_assoc, hys.significant_append, significant_blanks hall, List.filter_append,
    List.filter_cons_of_neg (by simp [hsig])]
  simp

/-! ## Sealed texts -/

/-- Nothing behind the text can change its significant lexemes. -/
def Sealed (u : List Char) : Prop := ∀ v, significant (u ++ v) = significant u ++ significant v

theorem sealed_blank {c : Char} (h : isBlank c = true) : Sealed [c] := by
  intro v
  rw [List.singleton_append, significant_blank h, significant_blank h]
  rfl

theorem sealed_plain {c : Char} (h : isPlain c = true) : Sealed [c] := by
  intro v
  rw [List.singleton_append, significant_plain h, significant_plain h]
  rfl

/-- If the end of a comment behind a barrier changes nothing before it, no text does. -/
theorem sealed_of_row {xs : List Lexeme} {b : Char} (hb : isBarrier b = true) (hs : Sealed [b])
    (h : Row xs [b, '*', '/']) : Sealed (joined xs ++ [b]) := by
  have key : ∀ v, significant (joined xs ++ b :: v) =
      xs.filter isSignificant ++ (significant [b] ++ significant v) := by
    intro v
    have hrow : Row xs (b :: v) := h.behind hb fun _ => by simp [Closes, blockEnd?]
    rw [hrow.significant_append]
    exact congrArg _ (hs v)
  intro v
  rw [List.append_assoc, List.singleton_append, key, key]
  simp

/-! ## Behind a line end -/

theorem blockEnd?_line {v : List Char} (hv : ¬ Closes v) (a : List Char) :
    blockEnd? (a ++ '\n' :: v) = blockEnd? a := by
  induction a with
  | nil =>
    rw [List.nil_append, blockEnd?.eq_2 _ _ (by simp), not_closes.mp hv]
    rfl
  | cons c a ih =>
    by_cases h : c = '*' ∧ startsWith (· == '/') a = true
    · obtain ⟨rfl, hs⟩ := h
      cases a with
      | nil => simp at hs
      | cons d a =>
        obtain rfl : d = '/' := by simpa using hs
        simp [blockEnd?]
    · have hne : ∀ r, c = '*' → a = '/' :: r → False := fun r h1 h2 => h ⟨h1, by simp [h2]⟩
      have hne' : ∀ r, c = '*' → a ++ '\n' :: v = '/' :: r → False := by
        intro r h1 h2
        cases a with
        | nil => simp at h2
        | cons d a => exact hne a h1 (by rw [(List.cons.inj h2).1])
      rw [List.cons_append, blockEnd?.eq_2 _ _ hne, blockEnd?.eq_2 _ _ hne', ih]

theorem takeWhile_before {p : Char → Bool} {b : Char} (hb : p b = false) (a v : List Char) :
    (a ++ b :: v).takeWhile p = a.takeWhile p := by
  induction a with
  | nil => simp [hb]
  | cons c a ih => by_cases h : p c <;> simp [h, ih]

/-- A text that does not have a character ends before the first one behind it. -/
theorem prefix_before {t a v : List Char} {b : Char} (h : t <+: a ++ b :: v) (ht : b ∉ t) : t <+: a := by
  induction t generalizing a with
  | nil => simp
  | cons c t ih =>
    cases a with
    | nil =>
      obtain ⟨rfl, -⟩ := List.cons_prefix_cons.mp h
      simp at ht
    | cons d a =>
      obtain ⟨rfl, htail⟩ := List.cons_prefix_cons.mp h
      exact List.cons_prefix_cons.mpr ⟨rfl, ih htail fun hmem => ht (by simp [hmem])⟩

/-- The first lexeme of a text with a line end in it: a run of blanks, or it is over by then. -/
theorem first_line {v : List Char} (hv : ¬ Closes v) (c : Char) (a : List Char) :
    isBlank c = true ∨ (first c (a ++ '\n' :: v)).2 <+: c :: a := by
  have hpre : (first c (a ++ '\n' :: v)).2 <+: c :: a ++ '\n' :: v := first_isPrefix c _
  rcases first_char_cases c with hc | hc | rfl | ⟨hc, hblank⟩ | hc
  · exact Or.inl hc
  · rw [first_of_nameStart hc, takeWhile_before (by decide)]
    exact Or.inr (List.cons_prefix_cons.mpr ⟨rfl, List.takeWhile_prefix _⟩)
  · right
    rw [first_slash]
    cases a with
    | nil => simp [comment?]
    | cons d a =>
      by_cases hline : d = '/'
      · subst hline
        simp only [comment?, List.cons_append, Option.map_some, Option.getD_some,
          takeWhile_before (p := (· != '\n')) (b := '\n') (by decide)]
        exact List.cons_prefix_cons.mpr ⟨rfl, List.cons_prefix_cons.mpr ⟨rfl, List.takeWhile_prefix _⟩⟩
      · by_cases hblock : d = '*'
        · subst hblock
          simp only [comment?, List.cons_append, blockEnd?_line hv]
          cases hb : blockEnd? a with
          | none => simp [List.cons_prefix_cons]
          | some body =>
            exact List.cons_prefix_cons.mpr ⟨rfl, List.cons_prefix_cons.mpr ⟨rfl, blockEnd?_isPrefix hb⟩⟩
        · simp [comment?, hline, hblock, List.cons_prefix_cons]
  · right
    refine prefix_before hpre ?_
    rw [first_of_numeral hc hblank]
    cases hn : number? (c :: (a ++ '\n' :: v)) with
    | none =>
      have : c ≠ '\n' := by intro heq; subst heq; revert hblank; decide
      simpa using this.symm
    | some text => exact number?_no_barrier (by decide) hn
  · rw [first_of_plain hc]
    exact Or.inr (by simp [List.cons_prefix_cons])

/-- Behind a line end, a text that closes no comment is read as if it stood alone. -/
theorem resync {v : List Char} (hv : ¬ Closes v) (a : List Char) :
    ∃ l, significant (a ++ '\n' :: v) = l ++ significant v := by
  suffices ∀ n (a : List Char), a.length ≤ n → ∃ l, significant (a ++ '\n' :: v) = l ++ significant v from
    this _ a (Nat.le_refl _)
  intro n
  induction n with
  | zero =>
    intro a ha
    rw [List.length_eq_zero_iff.mp (Nat.le_zero.mp ha)]
    exact ⟨[], significant_blank (by decide) v⟩
  | succ n ih =>
    intro a ha
    cases a with
    | nil => exact ⟨[], significant_blank (by decide) v⟩
    | cons c a =>
      simp only [List.length_cons, Nat.add_le_add_iff_right] at ha
      rcases first_line hv c a with hc | hpre
      · rw [List.cons_append, significant_blank hc]
        exact ih a ha
      · obtain ⟨r, hr⟩ := hpre
        have hlen : r.length ≤ n := by
          have hpos := List.length_pos_iff.mpr (first_ne_nil c (a ++ '\n' :: v))
          have := congrArg List.length hr
          simp only [List.length_append, List.length_cons] at this
          omega
        obtain ⟨l, hl⟩ := ih r hlen
        have hstands := stands_first c (a ++ '\n' :: v)
        have hrest : (c :: (a ++ '\n' :: v)).drop (first c (a ++ '\n' :: v)).2.length = r ++ '\n' :: v := by
          rw [← List.cons_append, ← hr, List.append_assoc, List.drop_left]
        rw [hrest] at hstands
        rw [← hr, List.append_assoc, hstands.significant_append, hl]
        exact ⟨_, (List.append_assoc _ _ _).symm⟩

end ShaderLoom.Lexeme
