/-
  ShaderLoom.Proofs.Lexeme.Unmarked — a line comment with a mark before it, and without.

  The first slash of a line comment can close a block comment, or be the second one of a line
  comment that starts before it; behind a mark it can do neither. The mark left out uncovers
  nothing: what is significant then was so with the mark, or it stands behind that first slash
  (`bares`).

  Only a slash can tell. The other lexemes before the mark and before the comment are the same,
  since both start with a character that ends a run and a number (`first_before`).
-/

import ShaderLoom.Proofs.Lexeme.Significant

namespace ShaderLoom.Lexeme

open ShaderLoom.Text

/-! ## Characters that end a lexeme -/

/-- A character that goes on no run and no number. -/
def isBreak (c : Char) : Bool :=
  !isBlank c && !isWord c && !isDigit c && !isSuffix c && !(['e', 'E', '+', '-', '.'].contains c)

section Break

variable {b : Char}

theorem mantissa?_before (hdigit : isDigit b = false) (hpoint : b ≠ '.') (a v : List Char) :
    mantissa? (a ++ b :: v) = mantissa? a := by
  obtain ⟨d, r, rfl, hd, hr⟩ := exists_run isDigit a
  cases r with
  | nil =>
    have hnil := mantissa?_whole (r := []) hd rfl rfl
    have hbehind := mantissa?_whole (r := b :: v) hd hdigit (by simp [hpoint])
    rw [hnil, List.append_nil, hbehind]
  | cons c r =>
    rw [List.append_assoc]
    by_cases hc : c = '.'
    · subst hc
      rw [List.cons_append, mantissa?_point hd, mantissa?_point hd, takeWhile_before hdigit]
    · have hbehind := mantissa?_whole (r := c :: r ++ b :: v) hd hr (by simp [hc])
      rw [hbehind, mantissa?_whole hd hr (by simp [hc])]

theorem sign_before (hplus : b ≠ '+') (hminus : b ≠ '-') (a v : List Char) : sign (a ++ b :: v) = sign a := by
  cases a with
  | nil =>
    show sign (b :: v) = []
    unfold sign
    split <;> simp_all
  | cons c a =>
    show sign (c :: (a ++ b :: v)) = _
    unfold sign
    split <;> simp_all

theorem exponent_before (hb : isBreak b = true) (a v : List Char) : exponent (a ++ b :: v) = exponent a := by
  simp only [isBreak, Bool.and_eq_true, Bool.not_eq_true', List.contains_eq_mem, decide_eq_false_iff_not,
    List.mem_cons, List.not_mem_nil, or_false, not_or] at hb
  obtain ⟨⟨⟨-, hdigit⟩, -⟩, he, hE, hplus, hminus, -⟩ := hb
  cases a with
  | nil => simp [exponent, he, hE]
  | cons c a =>
    have hlen : (sign a).length ≤ a.length := by
      have := congrArg List.length (sign_append_drop a)
      rw [List.length_append] at this
      omega
    simp only [List.cons_append, exponent, sign_before hplus hminus, List.drop_append_of_le_length hlen,
      takeWhile_before hdigit]

theorem suffix_before (hsuffix : isSuffix b = false) (a v : List Char) : suffix (a ++ b :: v) = suffix a := by
  cases a with
  | nil => simp [suffix, hsuffix]
  | cons c a => simp [suffix]

/-- A number ends before such a character. -/
theorem number?_before (hb : isBreak b = true) (a v : List Char) : number? (a ++ b :: v) = number? a := by
  have hparts := hb
  simp only [isBreak, Bool.and_eq_true, Bool.not_eq_true', List.contains_eq_mem, decide_eq_false_iff_not,
    List.mem_cons, List.not_mem_nil, or_false, not_or] at hparts
  obtain ⟨⟨⟨-, hdigit⟩, hsuffix⟩, -, -, -, -, hpoint⟩ := hparts
  have hmantissa := mantissa?_before hdigit hpoint a v
  cases hm : mantissa? a with
  | none => simp [number?, hmantissa, hm]
  | some m =>
    obtain ⟨r, rfl⟩ := mantissa?_isPrefix hm
    rw [hm, List.append_assoc] at hmantissa
    have hdrop : (r ++ b :: v).drop (exponent r).length = r.drop (exponent r).length ++ b :: v :=
      List.drop_append_of_le_length (exponent_isPrefix r).length_le
    rw [number?_of_mantissa? hm, List.append_assoc, number?_of_mantissa? hmantissa, exponent_before hb, hdrop,
      suffix_before hsuffix]

/-- Any first lexeme but a slash and a comment ends before it. -/
theorem first_before (hb : isBreak b = true) {c : Char} (hc : c ≠ '/') (a v : List Char) :
    first c (a ++ b :: v) = first c a := by
  have hparts := hb
  simp only [isBreak, Bool.and_eq_true, Bool.not_eq_true'] at hparts
  obtain ⟨⟨⟨⟨hblank, hword⟩, -⟩, -⟩, -⟩ := hparts
  rcases first_char_cases c with h | h | h | ⟨h, hc'⟩ | h
  · rw [first_of_blank h, first_of_blank h, takeWhile_before hblank]
  · rw [first_of_nameStart h, first_of_nameStart h, takeWhile_before hword]
  · exact absurd h hc
  · rw [first_of_numeral h hc', first_of_numeral h hc', ← List.cons_append, number?_before hb]
  · rw [first_of_plain h, first_of_plain h]

theorem stands_before (hb : isBreak b = true) {c : Char} (hc : c ≠ '/') {a q : List Char}
    (hq : (first c a).2 ++ q = c :: a) (v : List Char) : Stands (first c a) (q ++ b :: v) := by
  have hstands := stands_first c (a ++ b :: v)
  rwa [first_before hb hc, ← List.cons_append, ← hq, List.append_assoc, List.drop_left] at hstands

end Break

/-! ## Slashes -/

theorem stands_slash {w : List Char} (h : comment? ('/' :: w) = none) : Stands (.mark, ['/']) w :=
  ⟨'/', [], rfl, by rw [first_slash]; simp [h]⟩

/-- Of a line comment only what follows its line is left. -/
theorem significant_line (r : List Char) :
    significant ('/' :: '/' :: r) = significant (r.dropWhile (· != '\n')) := by
  conv => lhs; rw [← List.takeWhile_append_dropWhile (p := (· != '\n')) (l := r)]
  exact significant_lineComment
    (fun c hc => by simpa using List.all_eq_true.mp (List.all_takeWhile (p := (· != '\n'))) c hc)
    (endsLine_dropWhile r)

/-- Of a block comment, what follows its end. -/
theorem significant_closed {cs body r : List Char} (h : blockEnd? cs = some body) (hr : cs = body ++ r) :
    significant ('/' :: '*' :: cs) = significant r := by
  subst hr
  exact significant_blockComment (blockEnd?_self h) r

/-- Where a comment is closed behind a text that closes none: with the first slash, or later. -/
theorem blockEnd?_behind {p : List Char} (hp : ¬Closes p) (w : List Char) :
    blockEnd? (p ++ w) =
      if p.getLast? = some '*' ∧ startsWith (· == '/') w = true then some (p ++ ['/'])
      else (blockEnd? w).map (p ++ ·) := by
  induction p with
  | nil => simp
  | cons c p ih =>
    rw [closes_cons, not_or] at hp
    obtain ⟨hhead, htail⟩ := hp
    cases p with
    | nil =>
      by_cases h : c = '*' ∧ startsWith (· == '/') w = true
      · obtain ⟨rfl, hs⟩ := h
        cases w with
        | nil => cases hs
        | cons d w =>
          obtain rfl : d = '/' := by simpa using hs
          simp [blockEnd?]
      · have hne : ∀ r, c = '*' → w = '/' :: r → False := fun r h1 h2 => h ⟨h1, by simp [h2]⟩
        rw [List.singleton_append, blockEnd?.eq_2 _ _ hne]
        simp [h]
    | cons d p =>
      have hne : ∀ r, c = '*' → d :: p ++ w = '/' :: r → False :=
        fun r h1 h2 => hhead ⟨h1, by rw [(List.cons.inj h2).1]; rfl⟩
      rw [List.cons_append, blockEnd?.eq_2 _ _ hne, ih htail, List.getLast?_cons_cons]
      split
      · rfl
      · simp [Option.map_map, Function.comp_def]

/-! ## Without the mark -/

/-- What is significant without the mark was so with it, or stands behind the first slash. -/
def Bares (p t : List Char) : Prop :=
  significant (p ++ '/' :: '/' :: t) ⊆ significant (p ++ ';' :: '/' :: '/' :: t) ++ significant ('/' :: t)

section Bares

variable {p q t : List Char}

theorem bares_nil : Bares [] t := by
  intro x hx
  rw [List.nil_append, significant_plain (by decide)]
  exact List.mem_append_left _ (List.mem_cons_of_mem _ hx)

theorem Bares.of_stands {y : Lexeme} (h : Bares q t) (hwith : Stands y (q ++ ';' :: '/' :: '/' :: t))
    (hwithout : Stands y (q ++ '/' :: '/' :: t)) : Bares (y.2 ++ q) t := by
  intro x hx
  rw [List.append_assoc, hwithout.significant_append] at hx
  rw [List.append_assoc, hwith.significant_append, List.append_assoc]
  rcases List.mem_append.mp hx with hx | hx
  · exact List.mem_append_left _ hx
  · exact List.mem_append_right _ (h hx)

/-- The line of a comment ends in the text, or with the comment behind it. -/
theorem bares_line (ih : ∀ q : List Char, q.length ≤ p.length → Bares q t) : Bares ('/' :: '/' :: p) t := by
  intro x hx
  simp only [List.cons_append, significant_line, List.dropWhile_append] at hx ⊢
  split at hx
  · rename_i hall
    rw [if_pos hall]
    exact List.mem_append_left _ hx
  · rename_i hsome
    rw [if_neg hsome]
    exact ih _ (List.dropWhile_suffix _).length_le hx

/-- A block comment is closed in the text, with the first slash, behind it or not at all. -/
theorem bares_block (ih : ∀ q : List Char, q.length ≤ ('*' :: p).length → Bares q t) :
    Bares ('/' :: '*' :: p) t := by
  by_cases hp : Closes p
  · obtain ⟨body, hbody⟩ := Option.ne_none_iff_exists'.mp hp
    obtain ⟨q, rfl⟩ := blockEnd?_isPrefix hbody
    have hcomment : ∀ w, significant ('/' :: '*' :: (body ++ q ++ w)) = significant (q ++ w) := fun w =>
      significant_closed (blockEnd?_append hbody w) (by simp)
    intro x hx
    simp only [List.cons_append, hcomment] at hx ⊢
    exact ih q (by simp; omega) hx
  · have hbehind := blockEnd?_behind hp
    by_cases hstar : p.getLast? = some '*'
    · have hclosed : blockEnd? (p ++ '/' :: '/' :: t) = some (p ++ ['/']) := by
        rw [hbehind, if_pos ⟨hstar, rfl⟩]
      have hcomment := significant_closed hclosed (r := '/' :: t) (by simp)
      intro x hx
      simp only [List.cons_append, hcomment] at hx
      exact List.mem_append_right _ hx
    · have hwith : blockEnd? (p ++ ';' :: '/' :: '/' :: t) =
          (blockEnd? ('/' :: '/' :: t)).map fun body => p ++ ';' :: body := by
        rw [hbehind, if_neg (by simp), blockEnd?.eq_2 _ _ (by simp), Option.map_map]
        rfl
      have hwithout : blockEnd? (p ++ '/' :: '/' :: t) = (blockEnd? ('/' :: '/' :: t)).map (p ++ ·) := by
        rw [hbehind, if_neg (by simp [hstar])]
      cases hend : blockEnd? ('/' :: '/' :: t) with
      | none =>
        rw [hend] at hwith hwithout
        exact (ih _ (Nat.le_refl _)).of_stands (stands_slash (by simp [comment?, hwith]))
          (stands_slash (by simp [comment?, hwithout]))
      | some body =>
        rw [hend, Option.map_some] at hwith hwithout
        obtain ⟨r, hr⟩ := blockEnd?_isPrefix hend
        have hbefore := significant_closed hwith (r := r) (by simp [hr])
        have hafter := significant_closed hwithout (r := r) (by simp [hr])
        intro x hx
        simp only [List.cons_append, hbefore, hafter] at hx ⊢
        exact List.mem_append_left _ hx

/-- Of a text that starts with a slash. -/
theorem bares_slash (ih : ∀ q : List Char, q.length ≤ p.length → Bares q t) : Bares ('/' :: p) t := by
  rcases p with _ | ⟨d, p⟩
  · -- the slash starts the comment one character earlier
    have hline : significant ('/' :: '/' :: '/' :: t) = significant ('/' :: '/' :: t) := by
      rw [significant_line, significant_line]
      rfl
    have hmark : Stands (.mark, ['/']) (';' :: '/' :: '/' :: t) := stands_slash rfl
    have hwith := hmark.significant_append
    rw [List.singleton_append] at hwith
    intro x hx
    rw [List.singleton_append, hline] at hx
    rw [List.singleton_append, hwith, significant_plain (by decide)]
    simp [hx]
  by_cases hline : d = '/'
  · subst hline
    exact bares_line fun q hq => ih q (by simp; omega)
  by_cases hblock : d = '*'
  · subst hblock
    exact bares_block ih
  · have hnone : ∀ w, comment? ('/' :: (d :: p ++ w)) = none := by simp [comment?, hline, hblock]
    exact (ih _ (Nat.le_refl _)).of_stands (stands_slash (hnone _)) (stands_slash (hnone _))

theorem bares (p t : List Char) : Bares p t := by
  suffices ∀ n (p : List Char), p.length ≤ n → Bares p t from this _ p (Nat.le_refl _)
  intro n
  induction n with
  | zero =>
    intro p hp
    rw [List.length_eq_zero_iff.mp (Nat.le_zero.mp hp)]
    exact bares_nil
  | succ n ih =>
    intro p hp
    rcases p with _ | ⟨c, p⟩
    · exact bares_nil
    rw [List.length_cons, Nat.add_le_add_iff_right] at hp
    by_cases hc : c = '/'
    · subst hc
      exact bares_slash fun q hq => ih q (Nat.le_trans hq hp)
    · obtain ⟨q, hq⟩ := first_isPrefix c p
      have hlen : q.length ≤ n := by
        have := congrArg List.length hq
        have := List.length_pos_iff.mpr (first_ne_nil c p)
        simp only [List.length_append, List.length_cons] at *
        omega
      rw [← hq]
      exact (ih q hlen).of_stands (stands_before (by decide) hc hq _) (stands_before (by decide) hc hq _)

end Bares

end ShaderLoom.Lexeme
