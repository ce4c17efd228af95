/-
  ShaderLoom.Proofs.Lexeme.Gap — blanks and comments at the end of a line.

  A text with no significant lexeme is a gap (`IsGap`). Before a line end its comments are read as
  they are alone and its last blanks take in the blanks behind (`IsGap.lexemes_line`), so no
  significant lexeme starts in the gap or across the line end.
-/

import ShaderLoom.Proofs.Lexeme.Opened

namespace ShaderLoom.Lexeme

open ShaderLoom.Text

/-- Blanks and comments only. -/
def IsGap (cs : List Char) : Prop := ∀ x ∈ lexemes cs, isSignificant x = false

instance (cs : List Char) : Decidable (IsGap cs) :=
  inferInstanceAs (Decidable (∀ x ∈ lexemes cs, isSignificant x = false))

theorem Row.append {xs ys : List Lexeme} {w : List Char} (h : Row xs (joined ys ++ w)) (h' : Row ys w) :
    Row (xs ++ ys) w := by
  induction xs with
  | nil => exact h'
  | cons x xs ih =>
    refine ⟨?_, ih h.2⟩
    show Stands x (joined (xs ++ ys) ++ w)
    rw [joined_append, List.append_assoc]
    exact h.1

theorem stands_blanks {b : Char} {bs v : List Char} (hb : ∀ c ∈ b :: bs, isBlank c = true)
    (hv : startsWith isBlank v = false) : Stands (.space, b :: bs) v := by
  refine ⟨b, bs, rfl, ?_⟩
  rw [first_of_blank (hb b (by simp)), takeWhile_append_eq_left.mpr ⟨fun c hc => hb c (by simp [hc]), hv⟩]

theorem kind_of_insignificant {x : Lexeme} (h : isSignificant x = false) : x.1 = .comment ∨ x.1 = .space := by
  simpa only [isSignificant, Bool.and_eq_false_iff, bne_eq_false_iff_eq] using h

/-- A comment stands before any text that starts as the one it stands before does. -/
theorem Stands.comment_before {x : Lexeme} {v w : List Char} (h : Stands x v) (hx : x.1 = .comment)
    (hline : endsLine v → endsLine w) : Stands x w := by
  rcases h.of_comment hx with ⟨a, ha, hnl, hend⟩ | ⟨body, hb, hbody⟩
  · obtain ⟨kind, text⟩ := x
    obtain rfl : text = _ := ha
    obtain rfl : kind = .comment := hx
    have hrun : (a ++ w).takeWhile (· != '\n') = a :=
      takeWhile_append_eq_left.mpr ⟨fun c hc => by simpa using hnl c hc, hline hend⟩
    exact ⟨'/', '/' :: a, rfl, by rw [first_slash]; simp [comment?, hrun]⟩
  · obtain ⟨kind, text⟩ := x
    obtain rfl : text = _ := hb
    obtain rfl : kind = .comment := hx
    exact ⟨'/', '*' :: body, rfl, by rw [first_slash]; simp [comment?, blockEnd?_append hbody]⟩

/-- The blanks that a run takes in are those that follow it. -/
theorem Stands.blanks_end {x : Lexeme} {v : List Char} (h : Stands x v) (hx : x.1 = .space) :
    startsWith isBlank v = false := by
  obtain ⟨c, t, ht, hf⟩ := h
  have hblank : isBlank c = true := Stands.of_space ⟨c, t, ht, hf⟩ hx c (by simp [ht])
  rw [first_of_blank hblank] at hf
  subst hf
  exact (takeWhile_append_eq_left.mp (List.cons.inj ht).2).2

section Line

variable (below : List Char)

/-- Blanks before a line end run on to those behind it. -/
theorem lexemes_blanks_line {a : List Char} (h : ∀ c ∈ a, isBlank c = true) :
    lexemes (a ++ '\n' :: below) =
      (.space, a ++ '\n' :: below.takeWhile isBlank) :: lexemes (below.dropWhile isBlank) := by
  have hbelow : below.takeWhile isBlank ++ below.dropWhile isBlank = below := List.takeWhile_append_dropWhile
  have hall : ∀ c ∈ a ++ '\n' :: below.takeWhile isBlank, isBlank c = true := by
    intro c hc
    rcases List.mem_append.mp hc with hc | hc
    · exact h c hc
    · rcases List.mem_cons.mp hc with rfl | hc
      · decide
      · exact List.all_eq_true.mp List.all_takeWhile c hc
  have hover : startsWith isBlank (below.dropWhile isBlank) = false :=
    (takeWhile_append_eq_left.mp (by rw [hbelow])).2
  obtain ⟨b, rest, hb⟩ := List.exists_cons_of_ne_nil (l := a ++ '\n' :: below.takeWhile isBlank) (by simp)
  have hlex := (stands_blanks (hb ▸ hall) hover).lexemes_append
  rw [← hb, List.append_assoc, List.cons_append, hbelow] at hlex
  exact hlex

/-- Blanks and comments before a line end, and the blanks behind it. -/
theorem Row.lexemes_line {xs : List Lexeme} (h : Row xs []) (hxs : ∀ x ∈ xs, isSignificant x = false) :
    ∃ gs, joined gs = joined xs ++ '\n' :: below.takeWhile isBlank ∧ (∀ x ∈ gs, isSignificant x = false) ∧
      lexemes (joined xs ++ '\n' :: below) = gs ++ lexemes (below.dropWhile isBlank) := by
  induction xs with
  | nil => exact ⟨[(.space, '\n' :: below.takeWhile isBlank)], by simp, by simp [isSignificant],
      lexemes_blanks_line below (a := []) (by simp)⟩
  | cons x xs ih =>
    obtain ⟨gs, hjoined, hgs, hlex⟩ := ih h.2 fun y hy => hxs y (by simp [hy])
    have hkind := kind_of_insignificant (hxs x (by simp))
    by_cases hlast : x.1 = .space ∧ xs = []
    · obtain ⟨hx, rfl⟩ := hlast
      refine ⟨[(.space, x.2 ++ '\n' :: below.takeWhile isBlank)], by simp, by simp [isSignificant], ?_⟩
      rw [joined_cons, joined_nil, List.append_nil, lexemes_blanks_line below (h.1.of_space hx)]
      rfl
    · -- any other lexeme ends where it did
      have hx : Stands x (joined xs ++ '\n' :: below) := by
        rcases hkind with hx | hx
        · refine h.1.comment_before hx fun hend => ?_
          cases hj : joined xs with
          | nil => rfl
          | cons c t =>
            rw [hj] at hend
            exact hend
        · obtain ⟨y, ys, rfl⟩ := List.exists_cons_of_ne_nil fun hnil => hlast ⟨hx, hnil⟩
          obtain ⟨c, t, ht⟩ := List.exists_cons_of_ne_nil (h.2.ne_nil y (by simp))
          obtain ⟨b, bs, hb⟩ := List.exists_cons_of_ne_nil (h.ne_nil x (by simp))
          have hend := h.1.blanks_end hx
          have hblank := h.1.of_space hx
          obtain ⟨kind, text⟩ := x
          obtain rfl : kind = .space := hx
          obtain rfl : text = b :: bs := hb
          refine stands_blanks hblank ?_
          simpa [ht] using hend
      refine ⟨x :: gs, by simp [hjoined], List.forall_mem_cons.mpr ⟨hxs x (by simp), hgs⟩, ?_⟩
      rw [joined_cons, List.append_assoc, hx.lexemes_append, hlex, List.cons_append]

theorem IsGap.lexemes_line {gap : List Char} (h : IsGap gap) :
    ∃ gs, joined gs = gap ++ '\n' :: below.takeWhile isBlank ∧ (∀ x ∈ gs, isSignificant x = false) ∧
      lexemes (gap ++ '\n' :: below) = gs ++ lexemes (below.dropWhile isBlank) := by
  have hrow : Row (lexemes gap) [] := (row_of_lexemes (List.append_nil _).symm).1
  have := hrow.lexemes_line below h
  rwa [joined_lexemes] at this

end Line

theorem IsGap.significant_eq_nil {cs : List Char} (h : IsGap cs) : significant cs = [] :=
  List.filter_eq_nil_iff.mpr fun x hx => by simp [h x hx]

/-- What is no blank starts with a comment. -/
theorem IsGap.blank_or_comment {cs : List Char} (h : IsGap cs) :
    cs.dropWhile isBlank = [] ∨
      ∃ r, cs.dropWhile isBlank = '/' :: '/' :: r ∨ cs.dropWhile isBlank = '/' :: '*' :: r := by
  have hrest : significant (cs.dropWhile isBlank) = [] := by
    rw [← significant_blanks (a := cs.takeWhile isBlank) (fun c hc => List.all_eq_true.mp List.all_takeWhile c hc),
      List.takeWhile_append_dropWhile, h.significant_eq_nil]
  cases hcs : cs.dropWhile isBlank with
  | nil => exact Or.inl rfl
  | cons c t =>
    right
    have hblank : isBlank c = false := by simpa [hcs] using List.head?_dropWhile_not isBlank cs
    have hfirst : isSignificant (first c t) = false := by
      rw [hcs, significant, lexemes_cons, List.filter_eq_nil_iff] at hrest
      simpa using hrest (first c t) (by simp)
    obtain ⟨u, hu⟩ := first_isPrefix c t
    have hstands := stands_first c t
    rcases kind_of_insignificant hfirst with hkind | hkind
    · rcases hstands.of_comment hkind with ⟨a, ha, -⟩ | ⟨a, ha, -⟩
      · exact ⟨a ++ u, Or.inl (by rw [← hu, ha]; rfl)⟩
      · exact ⟨a ++ u, Or.inr (by rw [← hu, ha]; rfl)⟩
    · obtain ⟨d, t', ht⟩ := List.exists_cons_of_ne_nil (first_ne_nil c t)
      rw [ht, List.cons_append] at hu
      have := hstands.of_space hkind c (by rw [ht, (List.cons.inj hu).1]; simp)
      rw [hblank] at this
      cases this

end ShaderLoom.Lexeme
