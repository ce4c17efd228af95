/-
  ShaderLoom.Proofs.Morph.Statements — the uniform declaration that the new ones go below.

  The scan starts at a `uniform` at file scope and ends at the next semicolon, at any depth. So the
  last declaration that it finds has a `uniform` at depth zero, no semicolon up to its own, and behind
  it no `uniform` at depth zero that a semicolon follows (`exists_closing`, `scan_ne_nil`). The
  declarations are put in behind that semicolon, or at the end of its line (`Entry.offset`); the
  significant tokens behind it start below that (`Anchor.Of.le_start`).
-/

import Mathlib.Data.List.Basic
import ShaderLoom.Proofs.Lexeme.Gap
import ShaderLoom.Proofs.Morph.Relexed
import ShaderLoom.Proofs.Token.Ordered

namespace ShaderLoom.Morph

open ShaderLoom.Token ShaderLoom.Text
open ShaderLoom.Lexeme hiding significant isSignificant

/-! ## The scan -/

/-- The last declaration of a row of tokens, as the scan finds it. -/
structure Closing (ps : List Placed) (s : UniformStatement) (pre : List Placed) (keyword : Token)
    (inside : List Placed) (d : Nat) (post : List Placed) : Prop where
  cut : ps = pre ++ (keyword, 0) :: (inside ++ (s.semicolon, d) :: post)
  keyword : keyword.text = "uniform"
  inside : ∀ p ∈ inside, p.1.text ≠ ";"
  semicolon : s.semicolon.text = ";"
  last : uniformStatementsFrom none post = []

theorem Closing.cons {ps pre inside post : List Placed} {s : UniformStatement} {keyword : Token} {d : Nat}
    (h : Closing ps s pre keyword inside d post) (p : Placed) :
    Closing (p :: ps) s (p :: pre) keyword inside d post :=
  { h with cut := by rw [h.cut, List.cons_append] }

/-- With a declaration open, the last one may be that one. -/
theorem exists_closing_from {reading : Option (List Token)} {ps : List Placed} {s : UniformStatement}
    (h : (uniformStatementsFrom reading ps).getLast? = some s) :
    (∃ pre keyword inside d post, Closing ps s pre keyword inside d post) ∨
      reading ≠ none ∧ ∃ inside d post, ps = inside ++ (s.semicolon, d) :: post ∧
        (∀ p ∈ inside, p.1.text ≠ ";") ∧ s.semicolon.text = ";" ∧ uniformStatementsFrom none post = [] := by
  induction ps generalizing reading with
  | nil => simp [uniformStatementsFrom] at h
  | cons p ps ih =>
    obtain ⟨t, d⟩ := p
    cases reading with
    | none =>
      rw [uniformStatementsFrom] at h
      rcases ih h with ⟨pre, keyword, inside, e, post, hclosing⟩ | ⟨hopen, inside, e, post, hcut, hinside, hsemi, hlast⟩
      · exact Or.inl ⟨_, _, _, _, _, hclosing.cons (t, d)⟩
      · split at hopen
        · rename_i hstart
          obtain ⟨rfl, htext⟩ := hstart
          exact Or.inl ⟨[], t, inside, e, post, by rw [hcut]; rfl, htext, hinside, hsemi, hlast⟩
        · exact absurd rfl hopen
    | some tokens =>
      rw [uniformStatementsFrom] at h
      split at h
      · rename_i hsemi
        by_cases hrest : uniformStatementsFrom none ps = []
        · rw [hrest] at h
          obtain rfl := Option.some.inj h
          exact Or.inr ⟨by simp, [], d, ps, rfl, by simp, hsemi, hrest⟩
        · rw [List.getLast?_cons_of_ne_nil hrest] at h
          rcases ih h with ⟨pre, keyword, inside, e, post, hclosing⟩ | ⟨hopen, -⟩
          · exact Or.inl ⟨_, _, _, _, _, hclosing.cons (t, d)⟩
          · exact absurd rfl hopen
      · rename_i hother
        rcases ih h with ⟨pre, keyword, inside, e, post, hclosing⟩ | ⟨-, inside, e, post, hcut, hinside, hsemi, hlast⟩
        · exact Or.inl ⟨_, _, _, _, _, hclosing.cons (t, d)⟩
        · exact Or.inr ⟨by simp, (t, d) :: inside, e, post, by rw [hcut, List.cons_append],
            List.forall_mem_cons.mpr ⟨hother, hinside⟩, hsemi, hlast⟩

theorem exists_closing {ps : List Placed} {s : UniformStatement}
    (h : (uniformStatements ps).getLast? = some s) :
    ∃ pre keyword inside d post, Closing ps s pre keyword inside d post :=
  (exists_closing_from h).resolve_right fun h => h.1 rfl

theorem scan_ne_nil_of_open {tokens : List Token} {ps : List Placed} (h : ∃ p ∈ ps, p.1.text = ";") :
    uniformStatementsFrom (some tokens) ps ≠ [] := by
  induction ps generalizing tokens with
  | nil => simp at h
  | cons p ps ih =>
    rw [uniformStatementsFrom]
    split
    · simp
    · rename_i hother
      refine ih ?_
      obtain ⟨q, hq, htext⟩ := h
      rcases List.mem_cons.mp hq with rfl | hq
      · exact absurd htext hother
      · exact ⟨q, hq, htext⟩

/-- A `uniform` at depth zero and a semicolon behind it make a declaration. -/
theorem scan_ne_nil {reading : Option (List Token)} {pre post : List Placed} {keyword : Token}
    (hkeyword : keyword.text = "uniform") (h : ∃ p ∈ post, p.1.text = ";") :
    uniformStatementsFrom reading (pre ++ (keyword, 0) :: post) ≠ [] := by
  induction pre generalizing reading with
  | nil =>
    cases reading with
    | none =>
      rw [List.nil_append, uniformStatementsFrom, if_pos ⟨rfl, hkeyword⟩]
      exact scan_ne_nil_of_open h
    | some tokens => exact scan_ne_nil_of_open ⟨_, List.mem_cons_of_mem _ h.choose_spec.1, h.choose_spec.2⟩
  | cons p pre ih =>
    cases reading with
    | none =>
      rw [List.cons_append, uniformStatementsFrom]
      exact ih
    | some tokens =>
      rw [List.cons_append, uniformStatementsFrom]
      split
      · simp
      · exact ih

/-! ## The entry point -/

namespace Entry

/-- The uniform declarations before the entry point. -/
def statements (e : Entry) : List UniformStatement := uniformStatements e.before

/-- The lines of the uniforms that are new. -/
def added (e : Entry) : List String := newUniforms (declaredNames e.statements) e.dialect

/-- The tokens from the semicolon of the last declaration on. -/
def behind (e : Entry) : List Placed :=
  match e.statements.getLast? with
  | none => []
  | some s => e.before.dropWhile (·.1 != s.semicolon)

/-- The brace depth at that semicolon, zero without one. -/
def depth (e : Entry) : Nat := (e.behind.head?.map (·.2)).getD 0

/-- Where the new declarations are put in. -/
def offset (e : Entry) (source : String) : Nat :=
  match e.statements.getLast? with
  | none => e.returnType.start
  | some s => lineEnd source.toList s.semicolon.stop

end Entry

/-- A row in which nothing is twice is cut at one of its members in one way. -/
theorem cut_unique {α : Type} {l a b a' b' : List α} {x : α} (hnodup : l.Nodup) (h : l = a ++ x :: b)
    (h' : l = a' ++ x :: b') : a = a' ∧ b = b' := by
  subst h
  rw [List.nodup_append, List.nodup_cons] at hnodup
  obtain ⟨-, ⟨hbehind, -⟩, hahead⟩ := hnodup
  have hcut := (List.append_cons_inj_of_notMem (fun hmem => hahead x hmem x (by simp) rfl) hbehind).mp h'
  exact ⟨hcut.1, hcut.2.2⟩

namespace Found

variable {f : Found} {source : String}

theorem Of.nodup_before (hf : f.Of source) : (f.entry.before.map (·.1)).Nodup := by
  have hordered := ordered_significant source
  rw [hf.entry.cut] at hordered
  show ((placed 0 f.before).map (·.1)).Nodup
  rw [placed_tokens]
  exact (hordered.sublist (List.sublist_append_left _ _)).nodup

theorem Of.nodup_placed (hf : f.Of source) : f.entry.before.Nodup :=
  List.Pairwise.of_map (·.1) (fun _ _ hne heq => hne (congrArg (·.1) heq)) hf.nodup_before

/-- The tokens before the entry point, cut at the semicolon of the last declaration. -/
theorem Of.exists_closing (hf : f.Of source) {s : UniformStatement} (hs : f.statements.getLast? = some s) :
    ∃ pre keyword inside d post, Closing f.entry.before s pre keyword inside d post ∧
      f.entry.behind = (s.semicolon, d) :: post := by
  obtain ⟨pre, keyword, inside, d, post, h⟩ := Morph.exists_closing hs
  refine ⟨pre, keyword, inside, d, post, h, ?_⟩
  have hcut : f.entry.before = (pre ++ (keyword, 0) :: inside) ++ (s.semicolon, d) :: post := by
    rw [show f.entry.before = placed 0 f.before from rfl, h.cut]
    simp
  have hnodup := hf.nodup_before
  rw [hcut, List.map_append, List.map_cons, List.nodup_append] at hnodup
  have hs' : f.entry.statements.getLast? = some s := hs
  simp only [Entry.behind, hs']
  rw [hcut, List.dropWhile_append_of_pos fun p hp => ?_, List.dropWhile_cons_of_neg (by simp)]
  simpa using hnodup.2.2 p.1 (List.mem_map_of_mem hp) s.semicolon (by simp)

end Found

/-! ## The offset -/

theorem LineRest.isGap {gap : List Char} (h : LineRest gap) : IsGap gap := by
  cases h with
  | blank hb =>
    cases gap with
    | nil => simp [IsGap]
    | cons b bs =>
      have := (stands_blanks hb (v := []) rfl).lexemes_append
      rw [List.append_nil] at this
      simp [IsGap, this, Lexeme.isSignificant]
  | comment hb ht =>
    obtain ⟨gs, -, hgs, hlex⟩ := exists_lexemes_of_comment hb ht (v := []) rfl
    rw [List.append_nil, lexemes_nil, List.append_nil] at hlex
    rw [IsGap, hlex]
    exact hgs

/-- No significant token starts in the blanks and comments before a line end. -/
theorem lt_start_of_gap {source : String} {ts us : List Token} (h : tokenize source = ts ++ us)
    {gap below : List Char} (hus : textOf us = gap ++ '\n' :: below) (hgap : IsGap gap) :
    ∀ t ∈ significant us, (textOf ts).length + gap.length < t.start := by
  have hlexed : Lexed (ts ++ us) := h ▸ lexed_tokenize source
  have hlaid := tokenize_laid source
  obtain ⟨gs, hjoined, hgs, hlex⟩ := hgap.lexemes_line below
  rw [← hus, hlexed.append_right] at hlex
  obtain ⟨us₁, us₂, rfl, rfl, -⟩ := List.map_eq_append_iff.mp hlex
  have hnone : significant us₁ = [] := by
    refine List.filter_eq_nil_iff.mpr fun t ht => ?_
    have := hgs t.lexeme (List.mem_map_of_mem ht)
    exact Bool.not_eq_true _ ▸ this
  have hlength : gap.length < (textOf us₁).length := by
    rw [← joined_map_lexeme, hjoined, List.length_append, List.length_cons]
    omega
  intro t ht
  rw [significant_append, hnone, List.nil_append] at ht
  rw [h] at hlaid
  have := le_start_of_laid hlaid.append_right.append_right t (List.mem_filter.mp ht).1
  omega

theorem stop_le_of_laid {o : Nat} {ts us : List Token} (h : Laid o (ts ++ us)) :
    ∀ t ∈ ts, t.stop ≤ o + (textOf ts).length := by
  intro t ht
  obtain ⟨pre, post, rfl⟩ := List.append_of_mem ht
  rw [List.append_assoc] at h
  rw [h.place.2]
  simp only [textOf_append, textOf_cons, List.length_append]
  omega

namespace Anchor

variable {a : Anchor} {f : Found} {source : String}

theorem Of.tokens (ha : a.Of f) (hf : f.Of source) :
    tokenize source = (a.upTo ++ [a.semicolon]) ++ (a.behind ++ f.onward) := by
  rw [hf.tokens, ha.front, Found.onward]
  simp

/-- The tokens up to the anchor end above the new declarations. -/
theorem Of.stop_le (ha : a.Of f) (hf : f.Of source) : ∀ t ∈ a.head, t.stop ≤ a.above.length := by
  intro t ht
  have hlaid := tokenize_laid source
  rw [ha.tokens hf] at hlaid
  have := stop_le_of_laid hlaid t (List.mem_filter.mp ht).1
  rw [above, List.length_append]
  omega

/-- Those between the anchor and the entry point start below. -/
theorem Of.le_start (ha : a.Of f) (hf : f.Of source) : ∀ t ∈ a.between, a.above.length ≤ t.start := by
  intro t ht
  have hsource := ha.tokens hf
  have hmem : t ∈ significant (a.behind ++ f.onward) := by
    rw [Token.significant_append]
    exact List.mem_append_left _ ht
  rcases ha.gap with hgap | ⟨hrest, hstart⟩
  · have hlaid := tokenize_laid source
    rw [hsource] at hlaid
    have := le_start_of_laid hlaid.append_right t (List.mem_filter.mp hmem).1
    rw [above, hgap, List.append_nil]
    omega
  · obtain ⟨c, below, hbelow⟩ : ∃ c below, a.below = c :: below := by
      cases hb : a.below with
      | nil => rw [hb] at hstart; cases hstart
      | cons c below => exact ⟨c, below, rfl⟩
    obtain rfl : c = '\n' := by simpa [hbelow] using hstart
    have htext : textOf (a.behind ++ f.onward) = a.gap ++ '\n' :: (below ++ textOf f.onward) := by
      rw [textOf_append, ha.text, hbelow]
      simp
    have := lt_start_of_gap hsource htext hrest.isGap t hmem
    rw [above, List.length_append]
    omega

/-- The last declaration ends with the semicolon of the anchor. -/
theorem Of.semicolon_eq (ha : a.Of f) {s : UniformStatement} (hs : f.entry.statements.getLast? = some s) :
    s.semicolon = a.semicolon := by
  obtain ⟨s', hs', heq⟩ := ha.last
  obtain rfl : s' = s := Option.some.inj (hs'.symm.trans hs)
  exact heq

/-- The tokens before the entry point, cut at the anchor. -/
theorem Of.exists_closing (ha : a.Of f) (hf : f.Of source) :
    ∃ s pre keyword inside d post, s.semicolon = a.semicolon ∧ Closing f.entry.before s pre keyword inside d post ∧
      f.entry.behind = (a.semicolon, d) :: post ∧ post.map (·.1) = a.between ∧
        (pre ++ (keyword, 0) :: (inside ++ [(a.semicolon, d)])).map (·.1) = a.head := by
  obtain ⟨s, hs, heq⟩ := ha.last
  obtain ⟨pre, keyword, inside, d, post, hclosing, hbehind⟩ := hf.exists_closing hs
  refine ⟨s, pre, keyword, inside, d, post, heq, hclosing, heq ▸ hbehind, ?_⟩
  have hnodup := hf.nodup_before
  have hcut : f.entry.before.map (·.1) =
      (pre ++ (keyword, 0) :: inside).map (·.1) ++ a.semicolon :: post.map (·.1) := by
    rw [hclosing.cut, heq]
    simp
  obtain ⟨others, hothers⟩ := List.getLast?_eq_some_iff.mp ha.head_getLast?
  have hbefore : f.entry.before.map (·.1) = others ++ a.semicolon :: a.between := by
    show (placed 0 f.before).map (·.1) = _
    rw [placed_tokens, ha.before_eq, hothers]
    simp
  obtain ⟨hpre, hpost⟩ := cut_unique hnodup hcut hbefore
  refine ⟨hpost, ?_⟩
  rw [hothers, ← hpre]
  simp

end Anchor

/-! ## The text that is made -/

/-- The text that the pass makes of a source, with the declarations at their offset. -/
inductive MadeAt (f : Found) (source : String) : List Char → Prop
  | above : f.statements = [] → MadeAt f source (textOf f.front ++ (f.declarations ++ (f.helpers ++ f.swapped)))
  | apart {a : Anchor} : a.Of f → f.entry.offset source = a.above.length → a.below ≠ [] →
      MadeAt f source (a.above ++ (f.declarations ++ (a.below ++ (f.helpers ++ f.swapped))))
  | glued {a : Anchor} : a.Of f → f.entry.offset source = a.above.length → a.below = [] →
      MadeAt f source (a.above ++ (f.helpers ++ (f.declarations ++ f.swapped)))

theorem exists_madeAt {source : String} (h : (wrap source).source ≠ source) :
    ∃ f : Found, f.Of source ∧ MadeAt f source (wrap source).source.toList := by
  obtain ⟨p, hp⟩ := source_ne_iff.mp h
  obtain ⟨f, hf, hwrap⟩ := exists_edited hp
  refine ⟨f, hf, ?_⟩
  rw [hwrap, String.toList_ofList]
  cases hs : f.statements.getLast? with
  | none =>
    have hnil : f.statements = [] := List.getLast?_eq_none_iff.mp hs
    rw [hf.edited_of_none hnil]
    exact .above hnil
  | some s =>
    obtain ⟨a, ha, -, hend⟩ := exists_anchor hf hs
    have hoffset : f.entry.offset source = a.above.length := by
      have hs' : f.entry.statements.getLast? = some s := hs
      simp only [Entry.offset, hs', hend]
    rw [hf.edited_of_anchor hs hend ha]
    split
    · exact .glued ha hoffset ‹_›
    · exact .apart ha hoffset ‹_›

end ShaderLoom.Morph
