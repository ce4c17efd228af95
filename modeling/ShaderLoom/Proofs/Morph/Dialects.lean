/-
  ShaderLoom.Proofs.Morph.Dialects — a shader keeps its spelling of vector types.

  The pass spells its own text by the heading of the entry point, and a heading uses a name of the
  dialect it is taken for (`Heading.uses_dialect`). So where no token names a type of a dialect the
  declarations and the helpers are in the other one, and no lexeme put in names such a type either
  (`avoids_uniformLexemes`, `avoids_helperLexemes`, `Found.Of.avoids_newLexemes`).

  What is put in can hide tokens of the source but uncovers none. Only the first slash of the
  helpers can change how the text before it is read; a mark before it would keep that text as it
  was (`Anchor.Of.significant_marked`), and without the mark no more of it is read (`bares`). So no
  new text has a name of a dialect that the source did without (`unused_wrap`).
-/

import ShaderLoom.Proofs.Lexeme.Unmarked
import ShaderLoom.Proofs.Morph.Changed
import ShaderLoom.Proofs.Morph.Entry

namespace ShaderLoom

/-- The vector types of a dialect, and the half floats. -/
def Dialect.names : Dialect → List String
  | .float => ["float2", "float3", "float4", "half", "half2", "half3", "half4"]
  | .vec => ["vec2", "vec3", "vec4"]

def Dialect.other : Dialect → Dialect
  | .float => .vec
  | .vec => .float

theorem Dialect.other_eq {d spelled : Dialect} (h : spelled ≠ d) : spelled.other = d := by
  cases spelled <;> cases d <;> first | rfl | exact absurd rfl h

/-- No token of the source names a type of the dialect. -/
def Dialect.Unused (d : Dialect) (source : String) : Prop :=
  ∀ t ∈ Token.significant (Token.tokenize source), t.text ∉ d.names

instance (d : Dialect) (source : String) : Decidable (d.Unused source) :=
  inferInstanceAs (Decidable (∀ t ∈ Token.significant (Token.tokenize source), t.text ∉ d.names))

namespace Morph

open ShaderLoom.Token ShaderLoom.Text
open ShaderLoom.Lexeme hiding significant isSignificant

/-- No lexeme names a type of the dialect. -/
def Avoids (d : Dialect) (xs : List Lexeme) : Prop := ∀ x ∈ xs, word x ∉ d.names

instance (d : Dialect) (xs : List Lexeme) : Decidable (Avoids d xs) :=
  inferInstanceAs (Decidable (∀ x ∈ xs, word x ∉ d.names))

section Avoids

variable {d : Dialect} {xs ys : List Lexeme}

@[simp] theorem avoids_nil : Avoids d [] := by simp [Avoids]
@[simp] theorem avoids_cons {x : Lexeme} : Avoids d (x :: xs) ↔ word x ∉ d.names ∧ Avoids d xs := by
  simp [Avoids]
@[simp] theorem avoids_append : Avoids d (xs ++ ys) ↔ Avoids d xs ∧ Avoids d ys := by
  simp [Avoids, or_imp, forall_and]

theorem Avoids.of_subset (h : Avoids d ys) (hs : xs ⊆ ys) : Avoids d xs := fun x hx => h x (hs hx)

theorem avoids_map_lexeme {ts : List Token} : Avoids d (ts.map lexeme) ↔ ∀ t ∈ ts, t.text ∉ d.names := by
  simp [Avoids]

theorem unused_iff {source : String} : d.Unused source ↔ Avoids d (Lexeme.significant source.toList) := by
  rw [← significant_tokens, avoids_map_lexeme]
  rfl

end Avoids

/-! ## What is put in -/

theorem Heading.uses_dialect {w : Heading} (hw : w.Valid) : ∃ t ∈ w.tokens, t.text ∈ w.dialect.names := by
  obtain ⟨hret, -, -, htype, -⟩ := hw
  unfold Heading.dialect
  split
  · rename_i hvec
    rcases hvec with h | h
    · exact ⟨w.ret, by simp [Heading.tokens], by simp [h, Dialect.names]⟩
    · exact ⟨w.type, by simp [Heading.tokens], by simp [h, Dialect.names]⟩
  · rename_i hfloat
    rw [not_or] at hfloat
    refine ⟨w.ret, by simp [Heading.tokens], ?_⟩
    simp only [vectorTypes, List.mem_cons, List.not_mem_nil, or_false] at hret
    rcases hret with h | h | h
    · simp [h, Dialect.names]
    · simp [h, Dialect.names]
    · exact absurd h hfloat.1

theorem avoids_uniformLexemes {d spelled : Dialect} (h : spelled ≠ d) (declared : List String) :
    Avoids d (uniformLexemes declared spelled) := by
  have hall : ∀ lines ∈ [uniforms, spelled.resolutionUniform :: uniforms],
      Avoids d (lines.flatMap fun line => Lexeme.significant line.toList) := by
    cases d with
    | float =>
      cases spelled with
      | float => exact absurd rfl h
      | vec => decide +kernel
    | vec =>
      cases spelled with
      | float => decide +kernel
      | vec => exact absurd rfl h
  refine hall _ ?_
  unfold newUniforms
  split <;> simp

/-- Whether a text starts with a line comment, and its lexemes without the first slash are sealed
and name no type of the dialect. -/
def opensClean (d : Dialect) (cs : List Char) : Bool :=
  cs.take 2 == ['/', '/'] && isSealed cs.tail && decide (Avoids d ((read 0 cs).filter Lexeme.isSignificant)) &&
    decide (Avoids d ((read 0 cs.tail).filter Lexeme.isSignificant))

set_option maxRecDepth 100000 in
theorem opensClean_helpers (spelled : Dialect) : opensClean spelled.other spelled.helpers.toList = true :=
  decided_helpers (fun spelled => opensClean spelled.other)
    ⟨_, String.toList_ofList, by decide +kernel, by decide +kernel⟩ spelled

theorem avoids_helperLexemes {d spelled : Dialect} (h : spelled ≠ d) : Avoids d (helperLexemes spelled) := by
  have hclean := opensClean_helpers spelled
  simp only [Dialect.other_eq h, opensClean, Bool.and_eq_true, decide_eq_true_eq, ← lexemes_eq_read] at hclean
  exact hclean.1.2

/-- The helpers start with a line comment, and are sealed without its first slash too. -/
theorem exists_slashes (spelled : Dialect) :
    ∃ t, spelled.helpers.toList = '/' :: '/' :: t ∧ Sealed ('/' :: t) := by
  have hclean := opensClean_helpers spelled
  simp only [opensClean, Bool.and_eq_true, beq_iff_eq] at hclean
  obtain ⟨⟨⟨hstart, hsealed⟩, -⟩, -⟩ := hclean
  obtain ⟨t, ht⟩ : ∃ t, spelled.helpers.toList = '/' :: '/' :: t := ⟨_, by
    conv => lhs; rw [← List.take_append_drop 2 spelled.helpers.toList, hstart]
    rfl⟩
  rw [ht, List.tail_cons] at hsealed
  exact ⟨t, ht, sealed_of_isSealed hsealed⟩

/-- Behind the first slash of the helpers. -/
theorem exists_line {d spelled : Dialect} (h : spelled ≠ d) {v : List Char} (hv : Avoids d (Lexeme.significant v)) :
    ∃ t, spelled.helpers.toList ++ v = '/' :: '/' :: t ∧ Avoids d (Lexeme.significant ('/' :: t)) := by
  obtain ⟨t, ht, hsealed⟩ := exists_slashes spelled
  have hclean := opensClean_helpers spelled
  simp only [Dialect.other_eq h, opensClean, Bool.and_eq_true, decide_eq_true_eq, ← lexemes_eq_read, ht,
    List.tail_cons] at hclean
  refine ⟨t ++ v, by rw [ht]; rfl, ?_⟩
  rw [← List.cons_append, hsealed v, avoids_append]
  exact ⟨hclean.2, hv⟩

/-! ## Swapped arguments -/

theorem mem_after {α : Type} {l : List (Swap α)} {x : α} (h : x ∈ Swap.after l) :
    x ∈ Swap.before l ∨ ∃ s ∈ l, x ∈ s.new := by
  obtain ⟨s, hs, hx⟩ := List.mem_flatMap.mp h
  rcases List.mem_append.mp hx with hx | hx
  · exact Or.inl (List.mem_flatMap.mpr ⟨s, hs, List.mem_append_left _ hx⟩)
  · exact Or.inr ⟨s, hs, hx⟩

theorem word_name (s : String) : word (name s) = s := String.ofList_toList

/-- The cast is to a half float only from a vector of them. -/
theorem mem_names_of_scalarOf {d : Dialect} {vector : String} (h : scalarOf vector ∈ d.names) :
    vector ∈ d.names := by
  unfold scalarOf at h
  split at h
  · rename_i hhalf
    subst hhalf
    cases d with
    | float => decide
    | vec => exact absurd h (by decide)
  · cases d <;> exact absurd h (by decide)

theorem avoids_callLexemes {d : Dialect} {parameter : String} (h : parameter ∉ d.names) :
    Avoids d (callLexemes parameter) := by
  have hrest : Avoids d [name "getMorphAlpha", mark '(', mark ',', name "u_resolution", mark ',',
      name "u_morphProgress", mark ',', name "u_morphDirection", mark ')'] := by
    cases d <;> decide +kernel
  simp only [avoids_cons] at hrest
  simp only [callLexemes, avoids_cons, word_name parameter, h, hrest, not_false_eq_true, true_and]

theorem Cut.avoids_newLexemes {d : Dialect} {parameter : String} {c : Cut} (hparameter : parameter ∉ d.names)
    (hvector : c.vector ∉ d.names) (hargument : Avoids d ((significant c.argument).map lexeme)) :
    Avoids d (c.newLexemes parameter) := by
  have hmarks : Avoids d [mark '(', mark ')', mark '*'] := by cases d <;> decide
  simp only [avoids_cons] at hmarks
  have hscalar : word (name (scalarOf c.vector)) ∉ d.names := by
    rw [word_name]
    exact fun h => hvector (mem_names_of_scalarOf h)
  have hcall := avoids_callLexemes hparameter
  unfold Cut.newLexemes
  split <;> simp [hmarks, hscalar, hcall, hargument]

namespace Found

variable {f : Found} {source : String} {d : Dialect}

/-- The vector type of a return is a token of the source. -/
theorem Of.exists_vector (hf : f.Of source) {c : Cut} (hc : c ∈ f.cuts) :
    ∃ t ∈ significant (tokenize source), t.text = c.vector := by
  have hsite : c.site ∈ returns f.body := hf.sites ▸ List.mem_map_of_mem hc
  obtain ⟨pre, post, hbody, lead, ret, vector, opening, others, comma, closing, semicolon, rest, rfl, -, -,
    hvector, -⟩ := (returns_split f.body).of_mem hsite
  refine ⟨vector, ?_, hvector⟩
  rw [hf.entry.cut, after, hbody]
  simp

theorem Of.parameter_mem (hf : f.Of source) : f.heading.name ∈ significant (tokenize source) := by
  rw [hf.entry.cut]
  simp [Heading.tokens]

theorem Of.avoids_before (hf : f.Of source) (h : d.Unused source) : Avoids d (f.before.map lexeme) := by
  have hsource := avoids_map_lexeme.mpr h
  rw [hf.lexemes_eq] at hsource
  exact (avoids_append.mp hsource).1

theorem Of.avoids_newLexemes (hf : f.Of source) (h : d.Unused source) : Avoids d f.newLexemes := by
  have hsource := avoids_map_lexeme.mpr h
  rw [hf.lexemes_eq] at hsource
  simp only [avoids_append] at hsource
  obtain ⟨-, hbefore, htail⟩ := hsource
  refine avoids_append.mpr ⟨fun x hx => ?_, htail⟩
  rcases mem_after hx with hx | ⟨s, hs, hx⟩
  · exact hbefore x hx
  obtain ⟨c, hc, rfl⟩ := List.mem_map.mp hs
  obtain ⟨t, ht, hvector⟩ := hf.exists_vector hc
  refine Cut.avoids_newLexemes (h _ hf.parameter_mem) (hvector ▸ h t ht) (hbefore.of_subset fun y hy => ?_) x hx
  exact List.mem_flatMap.mpr ⟨_, List.mem_map_of_mem hc, List.mem_append_right _ hy⟩

/-- The entry point of a source is not in a dialect that the source does without. -/
theorem Of.dialect_ne (hf : f.Of source) (h : d.Unused source) : f.heading.dialect ≠ d := by
  obtain ⟨t, ht, hname⟩ := Heading.uses_dialect hf.entry.valid
  intro heq
  refine h t ?_ (heq ▸ hname)
  rw [hf.entry.cut]
  simp [ht]

end Found

/-! ## The text that is made -/

/-- With a mark before the helpers, the text above them is read as before. -/
theorem Anchor.Of.significant_marked {a : Anchor} {f : Found} {source : String} (ha : a.Of f) (hf : f.Of source)
    (hbelow : a.below ≠ []) :
    Lexeme.significant (a.above ++ (f.declarations ++ (a.below ++ ';' :: (f.helpers ++ f.swapped)))) =
      a.head.map lexeme ++ (f.addedLexemes ++ (a.between.map lexeme ++
        mark ';' :: (helperLexemes f.heading.dialect ++ f.newLexemes))) := by
  have hmark : Closes (';' :: (f.helpers ++ f.swapped)) → Closes (textOf f.onward) := fun hc =>
    hf.closes_helpers ((closes_cons.mp hc).resolve_left (by simp))
  have hrow : Row (a.behind.map lexeme) (';' :: (f.helpers ++ f.swapped)) := by
    refine (ha.row_behind hf).transport (.of_barrier (by decide) (fun h => absurd h (by decide))
      (fun h => absurd h (by decide)) fun hc => hmark (closes_cons.mpr (Or.inr hc)))
      fun _ _ _ hend => absurd hend hf.not_endsLine
  rw [ha.significant_apart hf (Closes.append_mono hmark (by simp) _), ← ha.significant_behind hbelow,
    significant_row hrow, significant_plain (by decide), f.significant_helpers, hf.significant_swapped]
  rfl

/-- The first slash of the helpers uncovers nothing of what stands above them. -/
theorem avoids_apart {a : Anchor} {f : Found} {source : String} {d : Dialect} (ha : a.Of f) (hf : f.Of source)
    (h : d.Unused source) (hbelow : a.below ≠ []) :
    Avoids d (Lexeme.significant (a.above ++ (f.declarations ++ (a.below ++ (f.helpers ++ f.swapped))))) := by
  have hdialect := hf.dialect_ne h
  have hnew := hf.avoids_newLexemes h
  have hbefore := hf.avoids_before h
  rw [ha.before_eq, List.map_append, avoids_append] at hbefore
  have hmarked : Avoids d (Lexeme.significant
      (a.above ++ (f.declarations ++ (a.below ++ ';' :: (f.helpers ++ f.swapped))))) := by
    have hmark : word (mark ';') ∉ d.names := by cases d <;> decide
    rw [ha.significant_marked hf hbelow]
    simp [hbefore, Found.addedLexemes, avoids_uniformLexemes hdialect, avoids_helperLexemes hdialect, hmark, hnew]
  obtain ⟨t, ht, hline⟩ := exists_line (v := '\n' :: f.swapped) hdialect
    (by rwa [significant_blank (by decide), hf.significant_swapped])
  have hslash : f.helpers ++ f.swapped = '/' :: '/' :: t := by simpa [Found.helpers] using ht
  have hbares := bares (a.above ++ (f.declarations ++ a.below)) t
  rw [hslash] at hmarked ⊢
  simp only [Bares, List.append_assoc] at hbares
  exact (avoids_append.mpr ⟨hmarked, hline⟩).of_subset hbares

theorem avoids_made {f : Found} {source : String} {d : Dialect} (hf : f.Of source) (h : d.Unused source)
    {made : List Char} (hmade : Made f made) : Avoids d (Lexeme.significant made) := by
  have hdialect := hf.dialect_ne h
  have hbefore := hf.avoids_before h
  have hadded : Avoids d f.addedLexemes := avoids_uniformLexemes hdialect _
  have hhelpers := avoids_helperLexemes hdialect
  have hnew := hf.avoids_newLexemes h
  cases hmade with
  | above hs =>
    rw [hf.significant_above hs fun hc => hf.closes_helpers hc, f.significant_helpers, hf.significant_swapped]
    simp [hbefore, hadded, hhelpers, hnew]
  | @apart a ha hbelow => exact avoids_apart ha hf h hbelow
  | @glued a ha hbelow =>
    rw [ha.before_eq, List.map_append, avoids_append] at hbefore
    have hcloses : Closes (f.helpers ++ (f.declarations ++ f.swapped)) →
        Closes (a.gap ++ (a.below ++ textOf f.onward)) := by
      intro hc
      have hold := hf.closes_swapped (f.inert_declarations _ (f.inert_helpers _ hc))
      exact (hold.append_left _).append_left _
    rw [Anchor.above, ha.gap_of_below_nil hbelow, List.append_nil, ha.significant_head hf hcloses,
      f.significant_helpers, f.significant_declarations, hf.significant_swapped]
    simp [hbefore, hadded, hhelpers, hnew]

/-- No new text has a name of a dialect that the source did without. -/
theorem unused_wrap {source : String} {d : Dialect} (h : d.Unused source) : d.Unused (wrap source).source := by
  cases hplan : planOf source with
  | error note =>
    rw [wrap_of_error hplan]
    exact h
  | ok p =>
    obtain ⟨f, hf, -, hmade⟩ := exists_made hplan
    exact unused_iff.mpr (avoids_made hf h hmade)

/-- A shader whose first uniform stands in a block comment that nothing closes. -/
def openShader : String := "/* uniform vec2 u_time; *vec4 main(vec2 p) \x7b return vec4(p, 0.0, 0.5); \x7d"

theorem shaders_keep_dialect :
    (wrap smallShader).source ≠ smallShader ∧ Dialect.vec.Unused smallShader ∧
      Dialect.vec.Unused (wrap smallShader).source ∧
    (wrap openShader).source ≠ openShader ∧ Dialect.float.Unused openShader ∧
      Dialect.float.Unused (wrap openShader).source := by
  have hsmall : Dialect.vec.Unused smallShader := by decide
  have hopen : Dialect.float.Unused openShader := by decide
  have hchanged : (wrap openShader).source ≠ openShader := source_ne_of_plan (by decide +kernel)
  exact ⟨smallShader_changed, hsmall, unused_wrap hsmall, hchanged, hopen, unused_wrap hopen⟩

end Morph

end ShaderLoom
