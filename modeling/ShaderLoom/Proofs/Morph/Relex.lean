/-
  ShaderLoom.Proofs.Morph.Relex — the swapped text read again.

  Behind an entry point the arguments are swapped one after another. Before each stands a comma and
  behind each a closing bracket, so the tokens around it are read as before, those in it too, and
  the new text adds its own (`significant_swapped`). Since no new text ends a comment, none ends in
  the new text that did not end in the old one (`closes_of_swapped`).
-/

import ShaderLoom.Proofs.Morph.Cut
import ShaderLoom.Proofs.Morph.Inserted

namespace ShaderLoom.Morph

open ShaderLoom.Token ShaderLoom.Text
open ShaderLoom.Lexeme hiding significant isSignificant

/-! ## Rows of tokens -/

/-- Tokens that are read off their own text. -/
def Lexed (ts : List Token) : Prop := lexemes (textOf ts) = ts.map lexeme

theorem lexed_tokenize (source : String) : Lexed (tokenize source) := by
  rw [Lexed, textOf_tokenize]
  rfl

theorem Lexed.append_right {ts us : List Token} (h : Lexed (ts ++ us)) : Lexed us := by
  unfold Lexed at h ⊢
  rw [List.map_append] at h
  have := (row_of_lexemes h).2
  rwa [joined_map_lexeme] at this

theorem Lexed.row {ts us : List Token} (h : Lexed (ts ++ us)) : Row (ts.map lexeme) (textOf us) := by
  unfold Lexed at h
  rw [List.map_append] at h
  have := (row_of_lexemes h).1
  rwa [joined_map_lexeme] at this

theorem filter_map_lexeme (ts : List Token) :
    (ts.map lexeme).filter Lexeme.isSignificant = (significant ts).map lexeme := by
  rw [List.filter_map]
  rfl

theorem Lexed.significant_text {ts : List Token} (h : Lexed ts) :
    Lexeme.significant (textOf ts) = (significant ts).map lexeme := by
  rw [Lexeme.significant, h, filter_map_lexeme]

/-- Tokens read off a text, behind which the text is another one. -/
theorem significant_row {ts : List Token} {w : List Char} (h : Row (ts.map lexeme) w) :
    Lexeme.significant (textOf ts ++ w) = (significant ts).map lexeme ++ Lexeme.significant w := by
  rw [← joined_map_lexeme, h.significant_append, filter_map_lexeme]

/-- Behind a mark that is a barrier. -/
theorem significant_guarded {ts : List Token} {t : Token} {b : Char} {old : List Char} (new : List Char)
    (hrow : Row ((ts ++ [t]).map lexeme) old) (ht : t.text.toList = [b]) (hb : isBarrier b = true)
    (hp : isPlain b = true) (hcloses : Closes new → Closes old) :
    Lexeme.significant (textOf (ts ++ [t]) ++ new) =
      (significant (ts ++ [t])).map lexeme ++ Lexeme.significant new := by
  rw [List.map_append] at hrow
  have hmark : t.lexeme = mark b := hrow.append_right.1.of_plain ht hp
  have hts : Row (ts.map lexeme) (b :: old) := by simpa [hmark, mark] using hrow.append_left
  have hsig : significant [t] = [t] := by
    have : t.kind = .mark := congrArg Prod.fst hmark
    simp [significant, isSignificant, this]
  rw [textOf_append, textOf_cons, textOf_nil, ht, List.append_nil, List.append_assoc, List.singleton_append,
    significant_row (hts.behind hb hcloses), significant_plain hp, significant_append, hsig, List.map_append,
    List.append_assoc]
  simp [hmark, mark]

/-! ## One argument -/

/-- The lexemes of what an argument is swapped for, its own among them. -/
def Cut.newLexemes (parameter : String) (c : Cut) : List Lexeme :=
  if isUnit (significant c.argument) then
    name (scalarOf c.vector) :: mark '(' :: (callLexemes parameter ++ [mark ')'])
  else
    name (scalarOf c.vector) :: mark '(' :: mark '(' ::
      ((significant c.argument).map lexeme ++ mark ')' :: mark '*' :: (callLexemes parameter ++ [mark ')']))

/-- The swap of an argument among the significant lexemes. -/
def Cut.lexemeSwap (parameter : String) (c : Cut) : Swap Lexeme :=
  ⟨(significant c.kept).map lexeme, (significant c.argument).map lexeme, c.newLexemes parameter⟩

theorem Cut.before_lexemeSwaps (parameter : String) (cuts : List Cut) :
    Swap.before (cuts.map (Cut.lexemeSwap parameter)) = (significant (Cut.tokens cuts)).map lexeme := by
  induction cuts with
  | nil => rfl
  | cons c cuts ih => simp [Cut.lexemeSwap, ih, significant_append]

theorem Cut.replacement_unit {parameter : String} {c : Cut} (h : isUnit (significant c.argument) = true) :
    (c.replacement parameter).toList =
      (scalarOf c.vector).toList ++ '(' :: ((alphaCall parameter).toList ++ [')']) := by
  rw [Cut.replacement, if_pos h]
  simp only [String.toList_append, List.append_assoc]
  rfl

theorem Cut.replacement_product {parameter : String} {c : Cut}
    (h : isUnit (significant c.argument) = false) :
    (c.replacement parameter).toList = (scalarOf c.vector).toList ++ '(' :: '(' :: (textOf c.argument ++
      ')' :: ' ' :: '*' :: ' ' :: ((alphaCall parameter).toList ++ [')'])) := by
  rw [Cut.replacement, if_neg (by simp [h])]
  simp only [String.toList_append, String.toList_ofList, List.append_assoc]
  rfl

theorem isName_scalarOf (vector : String) : IsName (scalarOf vector).toList := by
  unfold scalarOf
  split <;> decide

theorem inert_scalarOf (vector : String) : Inert (scalarOf vector).toList := by
  unfold scalarOf
  split <;> exact inert_of_no_star (by decide)

/-- What follows the argument in the new text closes no comment of its own. -/
theorem inert_factor {parameter : String} (hp : IsName parameter.toList) :
    Inert (' ' :: '*' :: ' ' :: ((alphaCall parameter).toList ++ [')'])) :=
  (inert_of_test (u := [' ', '*', ' ']) (by decide)).append
    ((inert_alphaCall hp).append (inert_of_no_star (by decide)))

theorem Cut.Sound.not_comment {c : Cut} (hc : c.Sound) :
    ∀ x ∈ (c.argument.map lexeme).getLast?, x.1 ≠ .comment := by
  intro x hx hkind
  rw [List.getLast?_map, hc.last] at hx
  obtain ⟨t, ht, rfl⟩ := Option.map_eq_some_iff.mp hx
  have : isSignificant t = true := (List.mem_filter.mp (List.mem_of_getLast? ht)).2
  have hkind' : t.kind = .comment := hkind
  simp [isSignificant, hkind'] at this

/-- The text put in for an argument is read as its lexemes, whatever comes behind it. -/
theorem significant_replacement {parameter : String} (hp : IsName parameter.toList) {c : Cut}
    {old new : List Char}
    (hc : c.Sound) (hrow : Row (c.argument.map lexeme) old) (hcloses : Closes new → Closes old) :
    Lexeme.significant ((c.replacement parameter).toList ++ new) =
      c.newLexemes parameter ++ Lexeme.significant new := by
  have hcall : ∀ v, Lexeme.significant ((alphaCall parameter).toList ++ ')' :: v) =
      callLexemes parameter ++ mark ')' :: Lexeme.significant v := by
    intro v
    rw [significant_alphaCall hp, significant_plain (by decide)]
    rfl
  have hscalar := isName_scalarOf c.vector
  cases hunit : isUnit (significant c.argument) with
  | true =>
    rw [Cut.replacement_unit hunit, Cut.newLexemes, if_pos hunit, List.append_assoc,
      significant_name hscalar (by rfl), List.cons_append, significant_plain (by decide),
      List.append_assoc, List.singleton_append, hcall]
    simp [mark, name]
  | false =>
    have hargument : Row (c.argument.map lexeme)
        (')' :: ' ' :: '*' :: ' ' :: ((alphaCall parameter).toList ++ ')' :: new)) := by
      refine hrow.transport (.of_barrier (by decide) (fun h => absurd h (by decide))
        (fun h => absurd h (by decide))
        fun h => hcloses ?_) fun x hx hkind => absurd hkind (hc.not_comment x hx)
      refine inert_factor hp new ?_
      simpa using h
    rw [Cut.replacement_product hunit, Cut.newLexemes, if_neg (by simp [hunit]), List.append_assoc,
      significant_name hscalar (by rfl), List.cons_append, significant_plain (by decide), List.cons_append,
      significant_plain (by decide)]
    simp only [List.append_assoc, List.cons_append, List.nil_append]
    rw [significant_row hargument, significant_plain (by decide), significant_blank (by decide),
      significant_plain (by decide), significant_blank (by decide), hcall]
    rfl

theorem closes_of_replacement {parameter : String} (hp : IsName parameter.toList) {c : Cut}
    {old new : List Char}
    (hcloses : Closes new → Closes old) (h : Closes ((c.replacement parameter).toList ++ new)) :
    Closes (textOf c.argument ++ old) := by
  cases hunit : isUnit (significant c.argument) with
  | true =>
    rw [Cut.replacement_unit hunit] at h
    have hinert : Inert ((scalarOf c.vector).toList ++ '(' :: ((alphaCall parameter).toList ++ [')'])) :=
      (inert_scalarOf _).append ((inert_of_no_star (u := ['(']) (by decide)).append
        ((inert_alphaCall hp).append (inert_of_no_star (by decide))))
    exact (hcloses (hinert new h)).append_left _
  | false =>
    rw [Cut.replacement_product hunit] at h
    have hinert : Inert ((scalarOf c.vector).toList ++ ['(', '(']) :=
      (inert_scalarOf _).append (inert_of_no_star (by decide))
    have h : Closes (textOf c.argument ++ ')' :: ' ' :: '*' :: ' ' :: ((alphaCall parameter).toList ++ ')' :: new)) :=
      hinert _ (by simpa using h)
    refine Closes.append_mono (fun hc => hcloses (inert_factor hp new ?_)) (by simp) _ h
    exact inert_of_no_star (u := [')']) (by decide) _ (by simpa using hc)

theorem Cut.startsWith_replacement (parameter : String) (c : Cut) (v : List Char) :
    startsWith (· == '/') ((c.replacement parameter).toList ++ v) = false := by
  have hstart : ∀ w, startsWith (· == '/') ((scalarOf c.vector).toList ++ w) = false := by
    intro w
    unfold scalarOf
    split <;> rfl
  cases hunit : isUnit (significant c.argument) with
  | true =>
    rw [Cut.replacement_unit hunit, List.append_assoc]
    exact hstart _
  | false =>
    rw [Cut.replacement_product hunit, List.append_assoc]
    exact hstart _

/-! ## The row of arguments -/

theorem closes_of_swapped {parameter : String} (hp : IsName parameter.toList) {cuts : List Cut}
    {tail : List Char}
    (h : Closes (Swap.after (cuts.map (Cut.swap parameter)) ++ tail)) :
      Closes (textOf (Cut.tokens cuts) ++ tail) := by
  induction cuts with
  | nil => exact h
  | cons c cuts ih =>
    simp only [List.map_cons, Swap.after_cons, Cut.swap, List.append_assoc] at h
    simp only [Cut.tokens_cons, textOf_append, List.append_assoc]
    refine Closes.append_mono (closes_of_replacement hp ih) (fun hs => ?_) _ h
    rw [c.startsWith_replacement] at hs
    cases hs

theorem significant_swapped {parameter : String} (hp : IsName parameter.toList) {cuts : List Cut}
    {tail : List Token}
    (hlex : Lexed (Cut.tokens cuts ++ tail)) (hcuts : ∀ c ∈ cuts, c.Sound) :
    Lexeme.significant (Swap.after (cuts.map (Cut.swap parameter)) ++ textOf tail) =
      Swap.after (cuts.map (Cut.lexemeSwap parameter)) ++ (significant tail).map lexeme := by
  induction cuts with
  | nil => exact hlex.significant_text
  | cons c cuts ih =>
    have hc := hcuts c (by simp)
    obtain ⟨others, comma, gap, hkept, hcomma, -, hgap⟩ := hc.comma
    have hcut : Cut.tokens (c :: cuts) ++ tail =
        (others ++ [comma]) ++ (gap ++ (c.argument ++ (Cut.tokens cuts ++ tail))) := by simp [hkept]
    rw [hcut] at hlex
    have hargument := hlex.append_right.append_right
    have hrest := ih hargument.append_right fun d hd => hcuts d (by simp [hd])
    generalize hnew : Swap.after (cuts.map (Cut.swap parameter)) ++ textOf tail = new at hrest
    have hcloses : Closes new → Closes (textOf (Cut.tokens cuts ++ tail)) := by
      rw [← hnew, textOf_append]
      exact closes_of_swapped hp
    -- the argument starts with a significant token, so a line comment before it is over
    have hline : ¬ endsLine (textOf (c.argument ++ (Cut.tokens cuts ++ tail))) := by
      obtain ⟨t, more, hargs⟩ := List.exists_cons_of_ne_nil hc.nonempty
      have ht : isSignificant t = true := by
        have := hc.first
        rw [hargs, List.head?_cons, ← hargs] at this
        exact (List.mem_filter.mp (List.mem_of_head? this.symm)).2
      rw [hargs] at hargument ⊢
      exact hargument.row.1.not_endsLine ht _
    have hgap' : Lexeme.significant (textOf gap ++ ((c.replacement parameter).toList ++ new)) =
        Lexeme.significant ((c.replacement parameter).toList ++ new) := by
      rw [← joined_map_lexeme]
      refine hlex.append_right.row.significant_gap (fun x hx => ?_) fun h => absurd h hline
      obtain ⟨t, ht, rfl⟩ := List.mem_map.mp hx
      exact Bool.not_eq_true _ ▸ List.filter_eq_nil_iff.mp hgap t ht
    have hguard := significant_guarded (textOf gap ++ ((c.replacement parameter).toList ++ new)) hlex.row
      (by rw [hcomma]; rfl) (by decide) (by decide) (b := ',') fun h => by
        rw [textOf_append, textOf_append]
        refine Closes.append_mono (closes_of_replacement hp hcloses) (fun hs => ?_) _ h
        rw [c.startsWith_replacement] at hs
        cases hs
    have hnewtext : Swap.after ((c :: cuts).map (Cut.swap parameter)) ++ textOf tail =
        textOf (others ++ [comma]) ++ (textOf gap ++ ((c.replacement parameter).toList ++ new)) := by
      simp [Cut.swap, hkept, ← hnew]
    have hsig : significant c.kept = significant (others ++ [comma]) := by
      rw [hkept, List.append_cons, significant_append, hgap, List.append_nil]
    rw [hnewtext, hguard, hgap', significant_replacement hp hc hargument.row hcloses, hrest, List.map_cons,
      Swap.after_cons, ← hsig]
    simp only [Cut.lexemeSwap, List.append_assoc]

end ShaderLoom.Morph
