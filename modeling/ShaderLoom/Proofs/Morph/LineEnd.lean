/-
  ShaderLoom.Proofs.Morph.LineEnd — where the line of a declaration ends.

  `lineEnd` passes over the rest of a line when it is blank or a line comment (`LineRest`) and
  stays where it is otherwise (`lineEnd_spec`). What it passes over leaves no trace
  (`LineRest.significant_append`) and ends before the next significant token (`LineRest.within`).
-/

import ShaderLoom.Proofs.Lexeme.Significant
import ShaderLoom.Morph.Wrap

namespace ShaderLoom.Morph

open ShaderLoom.Lexeme ShaderLoom.Text

/-- Blanks, or a line comment with blanks before it. -/
inductive LineRest : List Char → Prop
  | blank {bs : List Char} : (∀ c ∈ bs, isBlank c = true) → LineRest bs
  | comment {bs text : List Char} : (∀ c ∈ bs, isBlank c = true) → (∀ c ∈ text, c ≠ '\n') →
      LineRest (bs ++ '/' :: '/' :: text)

theorem LineRest.significant_append {gap v : List Char} (h : LineRest gap) (hv : endsLine v) :
    significant (gap ++ v) = significant v := by
  cases h with
  | blank hb => exact significant_blanks hb v
  | comment hb ht => rw [List.append_assoc, significant_blanks hb, List.cons_append, List.cons_append,
      significant_lineComment ht hv]

/-! ## What it passes over -/

theorem trimEnd_isPrefix (p : Char → Bool) (cs : List Char) : trimEnd p cs <+: cs := by
  have := List.reverse_prefix.mpr (List.dropWhile_suffix p (l := cs.reverse))
  rwa [List.reverse_reverse] at this

theorem trim_eq_nil {cs : List Char} (h : trim isBlank cs = []) : ∀ c ∈ cs, isBlank c = true := by
  have hrest : ∀ c ∈ trimStart isBlank cs, isBlank c = true := by
    intro c hc
    rw [← List.mem_reverse, ← List.takeWhile_append_dropWhile (p := isBlank)
      (l := (trimStart isBlank cs).reverse), List.reverse_eq_nil_iff.mp h, List.append_nil] at hc
    exact List.all_eq_true.mp List.all_takeWhile c hc
  intro c hc
  rw [← List.takeWhile_append_dropWhile (p := isBlank) (l := cs), List.mem_append] at hc
  rcases hc with hc | hc
  · exact List.all_eq_true.mp List.all_takeWhile c hc
  · exact hrest c hc

theorem lineEnd_spec (pre r : List Char) :
    ∃ gap below, r = gap ++ below ∧ lineEnd (pre ++ r) pre.length = pre.length + gap.length ∧
      (gap = [] ∨ LineRest gap ∧ endsLine below) := by
  have hcut : r = r.takeWhile (· != '\n') ++ r.dropWhile (· != '\n') := List.takeWhile_append_dropWhile.symm
  have hline : ∀ c ∈ r.takeWhile (· != '\n'), c ≠ '\n' := by
    intro c hc
    simpa using List.all_eq_true.mp (List.all_takeWhile (p := (· != '\n')) (l := r)) c hc
  unfold lineEnd
  simp only [List.drop_left]
  split
  · rename_i hnil
    exact ⟨_, _, hcut, rfl, Or.inr ⟨.blank (trim_eq_nil hnil), endsLine_dropWhile r⟩⟩
  · rename_i more hmore
    refine ⟨_, _, hcut, rfl, Or.inr ⟨?_, endsLine_dropWhile r⟩⟩
    -- the comment starts behind the blanks at the start of the rest of the line
    have hpre : '/' :: '/' :: more <+: (r.takeWhile (· != '\n')).dropWhile isBlank :=
      hmore ▸ trimEnd_isPrefix _ _
    obtain ⟨text, htext⟩ := hpre
    rw [← List.takeWhile_append_dropWhile (p := isBlank) (l := r.takeWhile (· != '\n')), ← htext,
      List.cons_append, List.cons_append]
    refine .comment (fun c hc => List.all_eq_true.mp List.all_takeWhile c hc) fun c hc => hline c ?_
    rw [← List.takeWhile_append_dropWhile (p := isBlank) (l := r.takeWhile (· != '\n')), ← htext]
    simp only [List.cons_append, List.mem_append, List.mem_cons]
    exact Or.inr (Or.inr (Or.inr (List.mem_append.mp hc)))
  · exact ⟨[], r, rfl, rfl, Or.inl rfl⟩

/-! ## Where it ends -/

/-- A line comment with blanks before it, as lexemes. -/
theorem exists_lexemes_of_comment {bs text v : List Char} (hb : ∀ c ∈ bs, isBlank c = true)
    (ht : ∀ c ∈ text, c ≠ '\n')
    (hv : endsLine v) :
    ∃ gs, joined gs = bs ++ '/' :: '/' :: text ∧ (∀ x ∈ gs, isSignificant x = false) ∧
      lexemes (bs ++ '/' :: '/' :: text ++ v) = gs ++ lexemes v := by
  have hrun : (text ++ v).takeWhile (· != '\n') = text :=
    takeWhile_append_eq_left.mpr ⟨fun c hc => by simpa using ht c hc, hv⟩
  have hcomment : Stands (.comment, '/' :: '/' :: text) v :=
    ⟨'/', '/' :: text, rfl, by rw [first_slash]; simp [comment?, hrun]⟩
  cases bs with
  | nil => exact ⟨[(.comment, '/' :: '/' :: text)], by simp, by simp [isSignificant],
    hcomment.lexemes_append⟩
  | cons b bs =>
    have hspace : Stands (.space, b :: bs) ('/' :: '/' :: text ++ v) := by
      refine ⟨b, bs, rfl, ?_⟩
      rw [first_of_blank (hb b (by simp)), takeWhile_append_eq_left.mpr ⟨fun c hc => hb c (by simp [hc]), by
        simpa using show isBlank '/' = false by decide⟩]
    refine ⟨[(.space, b :: bs), (.comment, '/' :: '/' :: text)], by simp, by simp [isSignificant], ?_⟩
    rw [List.append_assoc, hspace.lexemes_append, hcomment.lexemes_append]
    rfl

/-- The rest of a line ends before the next significant lexeme. -/
theorem LineRest.within {gap below : List Char} (h : LineRest gap) (hbelow : endsLine below)
    {xs ys : List Lexeme}
    {x : Lexeme} (hx : isSignificant x = true) (hstart : startsWith isNameStart x.2 = true)
    (hcut : joined (xs ++ x :: ys) = gap ++ below) (hlex : lexemes (gap ++ below) = xs ++ x :: ys) :
    ∃ mid, joined xs = gap ++ mid ∧ below = mid ++ joined (x :: ys) := by
  rw [joined_append] at hcut
  rcases List.append_eq_append_iff.mp hcut with ⟨a, hgap, hrest⟩ | ⟨mid, hxs, hmid⟩
  · cases a with
    | nil => exact ⟨[], by simp [hgap], by simpa using hrest.symm⟩
    | cons c a =>
      exfalso
      have hc : isNameStart c = true := by
        rw [joined_cons] at hrest
        cases htext : x.2 with
        | nil => rw [htext] at hstart; cases hstart
        | cons d t =>
          rw [htext] at hrest hstart
          rw [← (List.cons.inj hrest).1]
          exact hstart
      cases h with
      | blank hb =>
        have := hb c (by rw [hgap]; simp)
        rw [not_blank_of_nameStart hc] at this
        cases this
      | comment hb ht =>
        obtain ⟨gs, hjoined, hgs, hlex'⟩ := exists_lexemes_of_comment hb ht hbelow
        rw [hlex'] at hlex
        rcases List.append_eq_append_iff.mp hlex with ⟨as, hxs, -⟩ | ⟨as, hgs', hrest'⟩
        · have := congrArg List.length hgap
          rw [← hjoined, hxs, joined_append] at this
          simp at this
        · cases as with
          | nil =>
            have := congrArg List.length hgap
            rw [← hjoined, hgs'] at this
            simp at this
          | cons y as =>
            obtain ⟨rfl, -⟩ := List.cons.inj hrest'
            have := hgs x (by rw [hgs']; simp)
            rw [hx] at this
            cases this
  · exact ⟨mid, hxs, hmid⟩

end ShaderLoom.Morph
