/-
  ShaderLoom.Proofs.Lexeme.Row — the lexemes of a text, apart from their places in it.

  `lexemes` is the scan without the offsets. It has no memory: after the first lexeme come the
  lexemes of what that one leaves (`lexemes_cons`). A lexeme stands before a text (`Stands`) when
  it is the first one of the two together; a row of lexemes stands before a text (`Row`) when each
  of them does so in its place. Then the row is what the scan finds (`Row.lexemes_append`), and
  every cut of the lexemes of a text into two gives such a row (`row_of_lexemes`).
-/

import ShaderLoom.Token

namespace ShaderLoom

abbrev Lexeme := TokenKind × List Char

def Token.lexeme (t : Token) : Lexeme := (t.kind, t.text.toList)

namespace Lexeme

open ShaderLoom.Text

def lexemes (cs : List Char) : List Lexeme := (Token.scan 0 0 cs).map Token.lexeme

/-- The text that lexemes were cut from. -/
def joined (xs : List Lexeme) : List Char := xs.flatMap (·.2)

@[simp] theorem joined_nil : joined [] = [] := rfl
@[simp] theorem joined_cons (x : Lexeme) (xs : List Lexeme) : joined (x :: xs) = x.2 ++ joined xs := by
  simp [joined]
@[simp] theorem joined_append (xs ys : List Lexeme) : joined (xs ++ ys) = joined xs ++ joined ys := by
  simp [joined]

/-! ## A lexeme is the start of its text -/

theorem blockEnd?_isPrefix {cs body : List Char} (h : blockEnd? cs = some body) : body <+: cs := by
  induction cs using blockEnd?.induct generalizing body with
  | case1 rest =>
    simp only [blockEnd?, Option.some.injEq] at h
    subst h
    exact ⟨rest, rfl⟩
  | case2 c rest hne ih =>
    rw [blockEnd?.eq_2 _ _ hne] at h
    obtain ⟨b, hb, rfl⟩ := Option.map_eq_some_iff.mp h
    exact List.cons_prefix_cons.mpr ⟨rfl, ih hb⟩
  | case3 => simp [blockEnd?] at h

theorem comment?_isPrefix {cs text : List Char} (h : comment? cs = some text) : text <+: cs := by
  unfold comment? at h
  split at h
  · cases h
    exact List.cons_prefix_cons.mpr ⟨rfl, List.cons_prefix_cons.mpr ⟨rfl, List.takeWhile_prefix _⟩⟩
  · obtain ⟨b, hb, rfl⟩ := Option.map_eq_some_iff.mp h
    exact List.cons_prefix_cons.mpr ⟨rfl, List.cons_prefix_cons.mpr ⟨rfl, blockEnd?_isPrefix hb⟩⟩
  · cases h

theorem drop_takeWhile_length (p : Char → Bool) (cs : List Char) :
    cs.drop (cs.takeWhile p).length = cs.dropWhile p := by
  induction cs with
  | nil => rfl
  | cons c cs ih => by_cases h : p c <;> simp [h, ih]

theorem mantissa?_isPrefix {cs m : List Char} (h : mantissa? cs = some m) : m <+: cs := by
  have hcut : cs.takeWhile isDigit ++ cs.drop (cs.takeWhile isDigit).length = cs := by
    rw [drop_takeWhile_length, List.takeWhile_append_dropWhile]
  unfold mantissa? at h
  simp only at h
  split at h
  · rename_i rest hd
    split at h
    · cases h
    · cases h
      rw [hd] at hcut
      conv => rhs; rw [← hcut]
      exact (List.prefix_append_right_inj _).mpr
        (List.cons_prefix_cons.mpr ⟨rfl, List.takeWhile_prefix _⟩)
  · split at h
    · cases h
    · cases h
      exact List.takeWhile_prefix _

theorem sign_append_drop (cs : List Char) : sign cs ++ cs.drop (sign cs).length = cs := by
  unfold sign
  split <;> simp

theorem exponent_isPrefix (cs : List Char) : exponent cs <+: cs := by
  cases cs with
  | nil => simp [exponent]
  | cons c rest =>
    simp only [exponent]
    split
    · refine List.cons_prefix_cons.mpr ⟨rfl, ?_⟩
      conv => rhs; rw [← sign_append_drop rest]
      exact (List.prefix_append_right_inj _).mpr (List.takeWhile_prefix _)
    · simp

theorem suffix_isPrefix (cs : List Char) : suffix cs <+: cs := by
  cases cs with
  | nil => simp [suffix]
  | cons c rest => by_cases h : isSuffix c <;> simp [suffix, h, List.cons_prefix_cons]

/-- A number is a mantissa, a power and a suffix, each read off what the ones before it leave. -/
theorem number?_eq_some {cs text : List Char} (h : number? cs = some text) :
    ∃ m r, mantissa? cs = some m ∧ cs = m ++ r ∧
      text = m ++ exponent r ++ suffix (r.drop (exponent r).length) := by
  obtain ⟨m, hm, rfl⟩ := Option.map_eq_some_iff.mp h
  obtain ⟨r, rfl⟩ := mantissa?_isPrefix hm
  refine ⟨m, r, hm, rfl, ?_⟩
  simp [← List.drop_drop]

theorem number?_of_mantissa? {m r : List Char} (h : mantissa? (m ++ r) = some m) :
    number? (m ++ r) = some (m ++ exponent r ++ suffix (r.drop (exponent r).length)) := by
  simp [number?, h, ← List.drop_drop]

theorem exponent_append_drop (cs : List Char) : exponent cs ++ cs.drop (exponent cs).length = cs :=
  List.prefix_iff_eq_append.mp (exponent_isPrefix cs)

theorem number?_isPrefix {cs text : List Char} (h : number? cs = some text) : text <+: cs := by
  obtain ⟨m, r, -, rfl, rfl⟩ := number?_eq_some h
  rw [List.append_assoc]
  refine (List.prefix_append_right_inj _).mpr ?_
  have : exponent r ++ suffix (r.drop (exponent r).length) <+: exponent r ++ r.drop (exponent r).length :=
    (List.prefix_append_right_inj _).mpr (suffix_isPrefix _)
  rwa [exponent_append_drop] at this

theorem mantissa?_ne_nil {cs m : List Char} (h : mantissa? cs = some m) : m ≠ [] := by
  unfold mantissa? at h
  simp only at h
  repeat' split at h
  all_goals cases h
  · simp
  · assumption

theorem first_isPrefix (c : Char) (rest : List Char) : (first c rest).2 <+: c :: rest := by
  unfold first
  split
  · rename_i h; exact comment?_isPrefix h
  · split
    · exact List.cons_prefix_cons.mpr ⟨rfl, List.takeWhile_prefix _⟩
    · split
      · rename_i h; exact number?_isPrefix h
      · split
        · exact List.cons_prefix_cons.mpr ⟨rfl, List.takeWhile_prefix _⟩
        · simp [List.cons_prefix_cons]

theorem first_ne_nil (c : Char) (rest : List Char) : (first c rest).2 ≠ [] := by
  unfold first
  split
  · rename_i text h
    unfold comment? at h
    split at h
    · cases h; simp
    · obtain ⟨b, -, rfl⟩ := Option.map_eq_some_iff.mp h; simp
    · cases h
  · split
    · simp
    · split
      · rename_i text h
        obtain ⟨m, r, hm, -, rfl⟩ := number?_eq_some h
        simp [mantissa?_ne_nil hm]
      · split <;> simp

/-! ## Lexemes one by one -/

theorem scan_covered (k o : Nat) (cs : List Char) :
    Token.scan k o cs = Token.scan 0 (o + k) (cs.drop k) := by
  induction k generalizing o cs with
  | zero => simp
  | succ k ih =>
    cases cs with
    | nil => simp [Token.scan]
    | cons c rest => simp only [Token.scan, ih, List.drop_succ_cons]; congr 1; omega

/-- The scan from one lexeme to the next. -/
theorem scan_cons (o : Nat) (c : Char) (rest : List Char) :
    Token.scan 0 o (c :: rest) =
      ⟨(first c rest).1, String.ofList (first c rest).2, o, o + (first c rest).2.length⟩ ::
        Token.scan 0 (o + (first c rest).2.length) ((c :: rest).drop (first c rest).2.length) := by
  have hpos : 0 < (first c rest).2.length := List.length_pos_iff.mpr (first_ne_nil c rest)
  conv => lhs; unfold Token.scan
  simp only [scan_covered (_ - 1)]
  congr 2
  · omega
  · conv => rhs; rw [show (first c rest).2.length = ((first c rest).2.length - 1) + 1 by omega]
    rfl

theorem scan_map_lexeme (o : Nat) (cs : List Char) : (Token.scan 0 o cs).map Token.lexeme = lexemes cs := by
  unfold lexemes
  suffices ∀ n (cs : List Char), cs.length ≤ n → ∀ o o',
      (Token.scan 0 o cs).map Token.lexeme = (Token.scan 0 o' cs).map Token.lexeme from
    this _ cs (Nat.le_refl _) _ _
  intro n
  induction n with
  | zero => intro cs h o o'; rw [List.length_eq_zero_iff.mp (Nat.le_zero.mp h)]; rfl
  | succ n ih =>
    intro cs h o o'
    cases cs with
    | nil => rfl
    | cons c rest =>
      have hpos : 0 < (first c rest).2.length := List.length_pos_iff.mpr (first_ne_nil c rest)
      rw [scan_cons, scan_cons, List.map_cons, List.map_cons]
      congr 1
      exact ih _ (by simp only [List.length_drop, List.length_cons] at h ⊢; omega) _ _

@[simp] theorem lexemes_nil : lexemes [] = [] := rfl

theorem lexemes_cons (c : Char) (rest : List Char) :
    lexemes (c :: rest) = first c rest :: lexemes ((c :: rest).drop (first c rest).2.length) := by
  rw [lexemes, scan_cons, List.map_cons, scan_map_lexeme, Token.lexeme, String.toList_ofList]

/-- The lexemes of a text, character by character: `covered` counts those of the lexeme read last. -/
def read (covered : Nat) : List Char → List Lexeme
  | [] => []
  | c :: rest =>
    match covered with
    | k + 1 => read k rest
    | 0 => first c rest :: read ((first c rest).2.length - 1) rest

theorem lexemes_eq_read (cs : List Char) : lexemes cs = read 0 cs := by
  suffices ∀ k o, (Token.scan k o cs).map Token.lexeme = read k cs from this 0 0
  induction cs with
  | nil => intro k o; rfl
  | cons c cs ih =>
    intro k o
    cases k with
    | succ k => exact ih k (o + 1)
    | zero => simp only [Token.scan, read, List.map_cons, ih, Token.lexeme, String.toList_ofList]

theorem joined_lexemes (cs : List Char) : joined (lexemes cs) = cs := by
  suffices ∀ n (cs : List Char), cs.length ≤ n → joined (lexemes cs) = cs from this _ cs (Nat.le_refl _)
  intro n
  induction n with
  | zero => intro cs h; rw [List.length_eq_zero_iff.mp (Nat.le_zero.mp h)]; rfl
  | succ n ih =>
    intro cs h
    cases cs with
    | nil => rfl
    | cons c rest =>
      have hpos : 0 < (first c rest).2.length := List.length_pos_iff.mpr (first_ne_nil c rest)
      obtain ⟨w, hw⟩ := first_isPrefix c rest
      rw [lexemes_cons, joined_cons,
        ih _ (by simp only [List.length_drop, List.length_cons] at h ⊢; omega)]
      conv => lhs; rw [← hw]
      rw [List.drop_left, hw]

/-! ## Rows -/

/-- The lexeme is the first one of its text and what follows. -/
def Stands (x : Lexeme) (w : List Char) : Prop := ∃ c t, x.2 = c :: t ∧ first c (t ++ w) = x

/-- Each lexeme of the row stands before the rest of the row and the text behind it. -/
def Row : List Lexeme → List Char → Prop
  | [], _ => True
  | x :: xs, w => Stands x (joined xs ++ w) ∧ Row xs w

theorem Stands.lexemes_append {x : Lexeme} {w : List Char} (h : Stands x w) :
    lexemes (x.2 ++ w) = x :: lexemes w := by
  obtain ⟨c, t, ht, hf⟩ := h
  rw [ht, List.cons_append, lexemes_cons, hf, ht, ← List.cons_append, List.drop_left]

theorem Row.lexemes_append {xs : List Lexeme} {w : List Char} (h : Row xs w) :
    lexemes (joined xs ++ w) = xs ++ lexemes w := by
  induction xs with
  | nil => rfl
  | cons x xs ih =>
    rw [joined_cons, List.append_assoc, h.1.lexemes_append, ih h.2, List.cons_append]

theorem stands_first (c : Char) (rest : List Char) :
    Stands (first c rest) ((c :: rest).drop (first c rest).2.length) := by
  obtain ⟨w, hw⟩ := first_isPrefix c rest
  obtain ⟨d, t, ht⟩ := List.exists_cons_of_ne_nil (first_ne_nil c rest)
  rw [ht, List.cons_append] at hw
  obtain ⟨rfl, rfl⟩ := List.cons.inj hw
  refine ⟨d, t, ht, ?_⟩
  rw [ht, ← List.cons_append, List.drop_left]

/-- The lexemes of a text, cut into two: the first part stands before the text of the second. -/
theorem row_of_lexemes {cs : List Char} {xs ys : List Lexeme} (h : lexemes cs = xs ++ ys) :
    Row xs (joined ys) ∧ lexemes (joined ys) = ys := by
  induction xs generalizing cs with
  | nil =>
    refine ⟨trivial, ?_⟩
    rw [List.nil_append] at h
    rw [← h, joined_lexemes]
  | cons x xs ih =>
    cases cs with
    | nil => simp at h
    | cons c rest =>
      rw [lexemes_cons, List.cons_append] at h
      obtain ⟨hx, hrest⟩ := List.cons.inj h
      obtain ⟨hrow, hys⟩ := ih hrest
      refine ⟨⟨?_, hrow⟩, hys⟩
      have hj : joined xs ++ joined ys = (c :: rest).drop (first c rest).2.length := by
        rw [← joined_append, ← hrest, joined_lexemes]
      rw [hj, ← hx]
      exact stands_first c rest

theorem Row.append_left {xs ys : List Lexeme} {w : List Char} (h : Row (xs ++ ys) w) :
    Row xs (joined ys ++ w) := by
  induction xs with
  | nil => trivial
  | cons x xs ih =>
    refine ⟨?_, ih h.2⟩
    rw [← List.append_assoc, ← joined_append]
    exact h.1

theorem Row.append_right {xs ys : List Lexeme} {w : List Char} (h : Row (xs ++ ys) w) : Row ys w := by
  induction xs with
  | nil => exact h
  | cons x xs ih => exact ih h.2

theorem Row.ne_nil {xs : List Lexeme} {w : List Char} (h : Row xs w) : ∀ x ∈ xs, x.2 ≠ [] := by
  induction xs with
  | nil => simp
  | cons x xs ih =>
    intro y hy
    rcases List.mem_cons.mp hy with rfl | hy
    · obtain ⟨c, t, ht, -⟩ := h.1
      simp [ht]
    · exact ih h.2 y hy

end Lexeme

end ShaderLoom
