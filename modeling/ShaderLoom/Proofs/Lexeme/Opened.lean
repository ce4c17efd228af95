/-
  ShaderLoom.Proofs.Lexeme.Opened — a row of lexemes with another text behind it.

  A character that ends every run and number leaves the lexemes before it as they are, but for one
  thing: a slash in the row can open a comment that the text behind makes whole (`Opened`). With
  anything else the row stands (`Row.or_opened`). The slash is the last lexeme and starts a line
  comment, or a star follows it and the text behind closes what was left open before
  (`Opened.line_or_block`).

  Before another slash this leaves three readings (`Row.before_slash`): the row is read as it
  was, its last slash goes into a line comment, or the slash closes a comment that was open.
-/

import ShaderLoom.Proofs.Lexeme.Unmarked

namespace ShaderLoom.Lexeme

open ShaderLoom.Text

/-- With `w` behind it, the row is cut at a slash that opens a comment. -/
structure Opened (xs : List Lexeme) (w : List Char) (pre post : List Lexeme) : Prop where
  cut : xs = pre ++ (.mark, ['/']) :: post
  row : Row pre ('/' :: (joined post ++ w))
  comment : comment? ('/' :: (joined post ++ w)) ≠ none

theorem Closes.append_right {v : List Char} (h : Closes v) (w : List Char) : Closes (v ++ w) := by
  obtain ⟨body, hbody⟩ := Option.ne_none_iff_exists'.mp h
  rw [Closes, blockEnd?_append hbody]
  simp

theorem not_endsLine_of_break {b : Char} (hb : isBreak b = true) (v : List Char) : ¬ endsLine (b :: v) := by
  intro hend
  obtain rfl : b = '\n' := by simpa [endsLine] using hend
  exact absurd hb (by decide)

section Break

variable {b d : Char} {v w : List Char}

theorem Stands.or_opened {x : Lexeme} {q : List Char} (h : Stands x (q ++ b :: v)) (hb : isBreak b = true)
    (hd : isBreak d = true) :
    Stands x (q ++ d :: w) ∨ x = (.mark, ['/']) ∧ comment? ('/' :: (q ++ d :: w)) ≠ none := by
  obtain ⟨c, t, ht, hf⟩ := h
  by_cases hc : c = '/'
  · subst hc
    rw [first_slash] at hf
    cases hcom : comment? ('/' :: (t ++ (q ++ b :: v))) with
    | some text =>
      rw [hcom] at hf
      subst hf
      obtain rfl : text = '/' :: t := ht
      have hline : endsLine (q ++ b :: v) → endsLine (q ++ d :: w) := by
        cases q with
        | nil => exact fun hend => absurd hend (not_endsLine_of_break hb v)
        | cons e q => exact id
      refine Or.inl ⟨'/', t, rfl, ?_⟩
      rw [first_slash, comment?_transport hcom hline]
    | none =>
      rw [hcom] at hf
      subst hf
      by_cases hnew : comment? ('/' :: (q ++ d :: w)) = none
      · exact Or.inl (stands_slash hnew)
      · exact Or.inr ⟨rfl, hnew⟩
  · rw [← List.append_assoc, first_before hb hc] at hf
    exact Or.inl ⟨c, t, ht, by rw [← List.append_assoc, first_before hd hc, hf]⟩

theorem Row.or_opened {xs : List Lexeme} (h : Row xs (b :: v)) (hb : isBreak b = true) (hd : isBreak d = true) :
    Row xs (d :: w) ∨ ∃ pre post, Opened xs (d :: w) pre post := by
  induction xs with
  | nil => exact Or.inl trivial
  | cons x xs ih =>
    rcases h.1.or_opened hb hd with hx | ⟨rfl, hnew⟩
    · rcases ih h.2 with hrow | ⟨pre, post, hopened⟩
      · exact Or.inl ⟨hx, hrow⟩
      · refine Or.inr ⟨x :: pre, post, by rw [hopened.cut, List.cons_append], ⟨?_, hopened.row⟩, hopened.comment⟩
        simpa [hopened.cut] using hx
    · exact Or.inr ⟨[], xs, rfl, trivial, hnew⟩

end Break

namespace Opened

variable {xs pre post : List Lexeme} {w : List Char}

theorem lexemes_append (h : Opened xs w pre post) :
    lexemes (joined xs ++ w) = pre ++ lexemes ('/' :: (joined post ++ w)) := by
  rw [h.cut, joined_append, joined_cons, List.append_assoc, List.append_assoc]
  exact h.row.lexemes_append

theorem significant_append (h : Opened xs w pre post) :
    significant (joined xs ++ w) = pre.filter isSignificant ++ significant ('/' :: (joined post ++ w)) := by
  rw [significant, h.lexemes_append, List.filter_append]
  rfl

/-- The slash is the last lexeme, or a star is behind it and the comment is closed only in `w`. -/
theorem line_or_block (h : Opened xs w pre post) {u : List Char} (hrow : Row xs u) :
    post = [] ∨ ∃ r, joined post = '*' :: r ∧ ¬Closes (r ++ u) ∧ Closes (r ++ w) := by
  rw [h.cut] at hrow
  obtain ⟨hslash, hpost⟩ := hrow.append_right
  rcases post with _ | ⟨y, post⟩
  · exact Or.inl rfl
  right
  have hnone : comment? ('/' :: (joined (y :: post) ++ u)) = none := by
    obtain ⟨c, t, ht, hf⟩ := hslash
    obtain ⟨rfl, rfl⟩ := List.cons.inj ht
    rw [List.nil_append, first_slash] at hf
    cases hcom : comment? ('/' :: (joined (y :: post) ++ u)) with
    | none => rfl
    | some text =>
      rw [hcom] at hf
      exact absurd (congrArg Prod.fst hf) (by simp)
  have hcomment := h.comment
  obtain ⟨c, t, ht⟩ := List.exists_cons_of_ne_nil (hpost.ne_nil y (by simp))
  rw [joined_cons, ht] at hnone hcomment ⊢
  by_cases hline : c = '/'
  · subst hline
    simp [comment?] at hnone
  by_cases hblock : c = '*'
  · subst hblock
    refine ⟨t ++ joined post, rfl, ?_, ?_⟩
    · rw [not_closes]
      simpa [comment?] using hnone
    · intro hw
      exact hcomment (by simpa [comment?] using hw)
  · exact absurd (by simp [comment?, hline, hblock]) hcomment

/-- Before a character that starts no comment only the second is left. -/
theorem block {b : Char} {v : List Char} (h : Opened xs (b :: v) pre post) {u : List Char} (hrow : Row xs u)
    (hslash : b ≠ '/') (hstar : b ≠ '*') :
    ∃ r, joined post = '*' :: r ∧ ¬Closes (r ++ u) ∧ Closes (r ++ b :: v) := by
  refine (h.line_or_block hrow).resolve_left fun hnil => ?_
  subst hnil
  exact h.comment (by simp [comment?, hslash, hstar])

end Opened

/-- A comment that is closed behind a text which closes none, by its first slash. -/
theorem closed_by_slash {p v : List Char} (hp : ¬Closes p) (hclosed : Closes (p ++ '/' :: v))
    (hv : ¬Closes ('/' :: v)) : p.getLast? = some '*' ∧ blockEnd? (p ++ '/' :: v) = some (p ++ ['/']) := by
  have hend := blockEnd?_behind hp ('/' :: v)
  by_cases hstar : p.getLast? = some '*'
  · exact ⟨hstar, by rw [hend, if_pos ⟨hstar, rfl⟩]⟩
  · rw [if_neg fun h => hstar h.1, not_closes.mp hv] at hend
    exact absurd hend hclosed

/-- A comment up to the end that is found behind its start. -/
theorem lexemes_block {body v : List Char} (h : blockEnd? (body ++ v) = some body) :
    lexemes ('/' :: '*' :: (body ++ v)) = (.comment, '/' :: '*' :: body) :: lexemes v := by
  have : Stands (.comment, '/' :: '*' :: body) v := ⟨'/', '*' :: body, rfl, by rw [first_slash]; simp [comment?, h]⟩
  exact this.lexemes_append

/-- How a row of lexemes is read with a slash and `v` behind it. -/
inductive BeforeSlash (xs : List Lexeme) (v : List Char) : List Lexeme → Prop
  | apart : BeforeSlash xs v (xs.filter isSignificant ++ significant ('/' :: v))
  | line {pre : List Lexeme} : xs = pre ++ [(.mark, ['/'])] →
      BeforeSlash xs v (pre.filter isSignificant ++ significant ('/' :: '/' :: v))
  | block {pre post : List Lexeme} : xs = pre ++ (.mark, ['/']) :: post → (joined xs).getLast? = some '*' →
      BeforeSlash xs v (pre.filter isSignificant ++ significant v)

theorem Row.before_slash {xs : List Lexeme} {u v : List Char} (h : Row xs u) (hline : ¬endsLine u)
    (hcloses : Closes ('/' :: v) → Closes u) : BeforeSlash xs v (significant (joined xs ++ '/' :: v)) := by
  have hmark : Row xs [';'] :=
    h.transport (.of_barrier (by decide) (fun h => absurd h (by decide)) (fun h => absurd h (by decide)) fun h =>
      absurd h not_closes_nil) fun _ _ _ hend => absurd hend hline
  rcases hmark.or_opened (d := '/') (w := v) (by decide) (by decide) with hrow | ⟨pre, post, hopened⟩
  · rw [hrow.significant_append]
    exact .apart
  rw [hopened.significant_append]
  rcases hopened.line_or_block h with rfl | ⟨r, hr, hopen, hclosed⟩
  · exact .line hopened.cut
  · have hr' : ¬Closes r := fun hc => hopen (hc.append_right u)
    have hv : ¬Closes ('/' :: v) := fun hc => hopen ((hcloses hc).append_left r)
    obtain ⟨hstar, hend⟩ := closed_by_slash hr' hclosed hv
    rw [hr, List.cons_append, significant_closed hend (r := v) (by simp)]
    refine .block hopened.cut ?_
    rw [hopened.cut, joined_append, joined_cons, hr, List.getLast?_append, List.getLast?_append,
      List.getLast?_cons, hstar]
    rfl

end ShaderLoom.Lexeme
