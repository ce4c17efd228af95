/-
  ShaderLoom.Proofs.Token.Layout — tokens and their places in the source.

  The tokens of a source are laid out one after another (`tokenize_laid`) and their texts are the
  source (`textOf_tokenize`), so a token starts where the text of those before it ends
  (`Laid.place`). The significant tokens are some of them; a cut of the significant tokens is a
  cut of all (`exists_around`).
-/

import ShaderLoom.Proofs.Lexeme.Row

namespace ShaderLoom.Token

open ShaderLoom.Lexeme

/-- The text that tokens were cut from. -/
def textOf (ts : List Token) : List Char := ts.flatMap (·.text.toList)

@[simp] theorem textOf_nil : textOf [] = [] := rfl
@[simp] theorem textOf_cons (t : Token) (ts : List Token) :
    textOf (t :: ts) = t.text.toList ++ textOf ts := by
  simp [textOf]
@[simp] theorem textOf_append (ts us : List Token) : textOf (ts ++ us) = textOf ts ++ textOf us := by
  simp [textOf]

theorem joined_map_lexeme (ts : List Token) : joined (ts.map lexeme) = textOf ts := by
  induction ts with
  | nil => rfl
  | cons t ts ih => rw [List.map_cons, joined_cons, ih, textOf_cons, lexeme]

/-- Each token starts where the one before it ended, the first at `o`. -/
def Laid (o : Nat) : List Token → Prop
  | [] => True
  | t :: ts => t.start = o ∧ t.stop = o + t.text.toList.length ∧ Laid t.stop ts

theorem scan_laid (o : Nat) (cs : List Char) : Laid o (scan 0 o cs) := by
  suffices ∀ n (cs : List Char), cs.length ≤ n → ∀ o, Laid o (scan 0 o cs) from this _ cs (Nat.le_refl _) o
  intro n
  induction n with
  | zero => intro cs h o; rw [List.length_eq_zero_iff.mp (Nat.le_zero.mp h)]; trivial
  | succ n ih =>
    intro cs h o
    cases cs with
    | nil => trivial
    | cons c rest =>
      have hpos : 0 < (first c rest).2.length := List.length_pos_iff.mpr (first_ne_nil c rest)
      rw [scan_cons]
      refine ⟨rfl, by rw [String.toList_ofList], ih _ ?_ _⟩
      simp only [List.length_drop, List.length_cons] at h ⊢
      omega

theorem tokenize_laid (source : String) : Laid 0 (tokenize source) := scan_laid 0 _

theorem textOf_tokenize (source : String) : textOf (tokenize source) = source.toList := by
  rw [← joined_map_lexeme, tokenize, scan_map_lexeme, joined_lexemes]

theorem Laid.append_right {o : Nat} {ts us : List Token} (h : Laid o (ts ++ us)) :
    Laid (o + (textOf ts).length) us := by
  induction ts generalizing o with
  | nil => exact h
  | cons t ts ih =>
    obtain ⟨-, hstop, hrest⟩ := h
    have := ih hrest
    rw [hstop] at this
    rwa [textOf_cons, List.length_append, ← Nat.add_assoc]

theorem Laid.place {o : Nat} {ts us : List Token} {t : Token} (h : Laid o (ts ++ t :: us)) :
    t.start = o + (textOf ts).length ∧ t.stop = o + (textOf ts).length + t.text.toList.length :=
  ⟨h.append_right.1, h.append_right.2.1⟩

/-- Where the last token of a row ends. -/
theorem Laid.getLast_stop {o : Nat} {ts us vs : List Token} {t : Token}
    (h : Laid o (ts ++ (us ++ [t] ++ vs))) :
    t.stop = o + (textOf ts).length + (textOf (us ++ [t])).length := by
  have : Laid o ((ts ++ us) ++ t :: vs) := by simpa [List.append_assoc] using h
  rw [this.place.2]
  simp only [textOf_append, List.length_append, textOf_cons, textOf_nil, List.append_nil]
  omega

/-! ## Significant tokens -/

theorem significant_append (ts us : List Token) :
    significant (ts ++ us) = significant ts ++ significant us :=
  List.filter_append ts us

theorem significant_eq_append {ts a b : List Token} (h : significant ts = a ++ b) :
    ∃ ts₁ ts₂, ts = ts₁ ++ ts₂ ∧ significant ts₁ = a ∧ significant ts₂ = b := by
  obtain ⟨ts₁, ts₂, h1, h2, h3⟩ := List.filter_eq_append_iff.mp h
  exact ⟨ts₁, ts₂, h1, h2, h3⟩

theorem significant_eq_cons {ts b : List Token} {t : Token} (h : significant ts = t :: b) :
    ∃ gap ts', ts = gap ++ t :: ts' ∧ significant gap = [] ∧ significant ts' = b := by
  obtain ⟨gap, ts', h1, h2, -, h3⟩ := List.filter_eq_cons_iff.mp h
  exact ⟨gap, ts', h1, List.filter_eq_nil_iff.mpr h2, h3⟩

/-- A row of significant tokens within the tokens of a source, from its first to its last. -/
theorem exists_around {ts a b c : List Token} (h : significant ts = a ++ (b ++ c)) (hb : b ≠ []) :
    ∃ ts₁ ts₂ ts₃, ts = ts₁ ++ (ts₂ ++ ts₃) ∧ significant ts₁ = a ∧ significant ts₂ = b ∧
      significant ts₃ = c ∧ ts₂.head? = b.head? ∧ ts₂.getLast? = b.getLast? := by
  obtain ⟨ts₁, r, rfl, h₁, hr⟩ := significant_eq_append h
  obtain ⟨t, b, rfl⟩ := List.exists_cons_of_ne_nil hb
  obtain ⟨gap, r, rfl, hgap, hr⟩ := significant_eq_cons hr
  have ht : isSignificant t = true := by
    have : t ∈ significant (ts₁ ++ (gap ++ t :: r)) := by rw [h]; simp
    exact (List.mem_filter.mp this).2
  rcases List.eq_nil_or_concat b with rfl | ⟨mid, u, rfl⟩
  · refine ⟨ts₁ ++ gap, [t], r, by simp, ?_, ?_, hr, rfl, rfl⟩
    · rw [significant_append, h₁, hgap, List.append_nil]
    · simp [significant, ht]
  · have hr : significant r = mid ++ u :: c := by simpa using hr
    rw [List.concat_eq_append] at h ⊢
    obtain ⟨m, r, rfl, hm, hr⟩ := significant_eq_append hr
    obtain ⟨gap', r, rfl, hgap', hr⟩ := significant_eq_cons hr
    have hu : isSignificant u = true := by
      have : u ∈ significant (ts₁ ++ (gap ++ t :: (m ++ (gap' ++ u :: r)))) := by rw [h]; simp
      exact (List.mem_filter.mp this).2
    refine ⟨ts₁ ++ gap, t :: (m ++ gap' ++ [u]), r, by simp, ?_, ?_, hr, rfl, ?_⟩
    · rw [significant_append, h₁, hgap, List.append_nil]
    · have : significant (m ++ gap' ++ [u]) = mid ++ [u] := by
        rw [significant_append, significant_append, hm, hgap', List.append_nil]
        simp [significant, hu]
      rw [significant, List.filter_cons_of_pos ht]
      exact congrArg _ this
    · rw [← List.cons_append, List.getLast?_concat, ← List.cons_append, List.getLast?_concat]

end ShaderLoom.Token
