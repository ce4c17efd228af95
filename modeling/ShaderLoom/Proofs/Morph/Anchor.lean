/-
  ShaderLoom.Proofs.Morph.Anchor — where the new declarations of a shader go.

  With a uniform declaration before the entry point there is an anchor (`Anchor.Of`): the semicolon
  of the last one and the rest of its line (`exists_anchor`). The two insertions then put the
  declarations there and the helpers at the entry point, and with nothing between the two offsets
  the helpers come first (`Made.glued`). Together with the cuts this is the whole text that the
  pass makes (`exists_made`).
-/

import ShaderLoom.Proofs.Morph.LineEnd
import ShaderLoom.Proofs.Morph.Plan

namespace ShaderLoom.Morph

open ShaderLoom.Token ShaderLoom.Text
open ShaderLoom.Lexeme hiding significant isSignificant

/-! ## Uniform declarations -/

theorem semicolon_of_mem {reading : Option (List Token)} {ps : List Placed} {s : UniformStatement}
    (h : s ∈ uniformStatementsFrom reading ps) : s.semicolon ∈ ps.map (·.1) ∧ s.semicolon.text = ";" := by
  induction ps generalizing reading with
  | nil => simp [uniformStatementsFrom] at h
  | cons p ps ih =>
    obtain ⟨t, d⟩ := p
    have hstep : ∀ {r}, s ∈ uniformStatementsFrom r ps →
        s.semicolon ∈ ((t, d) :: ps).map (·.1) ∧ s.semicolon.text = ";" := by
      intro r hr
      obtain ⟨hmem, htext⟩ := ih hr
      exact ⟨List.mem_cons_of_mem _ hmem, htext⟩
    unfold uniformStatementsFrom at h
    cases reading with
    | none => exact hstep h
    | some tokens =>
      simp only at h
      split at h
      · rename_i ht
        rcases List.mem_cons.mp h with rfl | h
        · exact ⟨by simp, ht⟩
        · exact hstep h
      · exact hstep h

namespace Found

/-- The uniform declarations before the entry point. -/
def statements (f : Found) : List UniformStatement := uniformStatements (placed 0 f.before)

/-- The lines of the uniforms that are new. -/
def added (f : Found) : List String := newUniforms (declaredNames f.statements) f.heading.dialect

/-- The text of the new declarations: below a declaration, or right above the helpers. -/
def declarations (f : Found) : List Char :=
  if f.statements = [] then (lines f.added ++ "\n\n").toList else
    (String.join (f.added.map ("\n" ++ ·))).toList

def helpers (f : Found) : List Char := (f.heading.dialect.helpers ++ "\n").toList

/-- The text from the entry point on, with the arguments swapped. -/
def swapped (f : Found) : List Char := Swap.after f.swaps ++ textOf f.tail

end Found

/-! ## The anchor -/

structure Anchor where
  upTo : List Token
  semicolon : Token
  behind : List Token
  gap : List Char
  below : List Char

namespace Anchor

/-- The text above the new declarations. -/
def above (a : Anchor) : List Char := textOf (a.upTo ++ [a.semicolon]) ++ a.gap

structure Of (a : Anchor) (f : Found) : Prop where
  last : ∃ s, f.statements.getLast? = some s ∧ s.semicolon = a.semicolon
  front : f.front = a.upTo ++ a.semicolon :: a.behind
  semicolon : a.semicolon.text = ";"
  text : textOf a.behind = a.gap ++ a.below
  gap : a.gap = [] ∨ LineRest a.gap ∧ startsWith (· == '\n') a.below = true

variable {a : Anchor} {f : Found}

theorem Of.front_text (h : a.Of f) : textOf f.front = a.above ++ a.below := by
  rw [h.front, above, textOf_append, textOf_cons, h.text]
  simp

end Anchor

theorem startsWith_vectorType {text : String} (h : text ∈ vectorTypes) :
    ∃ c cs, text.toList = c :: cs ∧ isNameStart c = true := by
  simp only [vectorTypes, List.mem_cons, List.not_mem_nil, or_false] at h
  rcases h with rfl | rfl | rfl
  · exact ⟨'h', _, rfl, by decide⟩
  · exact ⟨'f', _, rfl, by decide⟩
  · exact ⟨'v', _, rfl, by decide⟩

/-- The semicolon of the last uniform declaration and what `lineEnd` makes of it. -/
theorem exists_anchor {f : Found} {source : String} (h : f.Of source) {s : UniformStatement}
    (hs : f.statements.getLast? = some s) :
    ∃ a : Anchor, a.Of f ∧ a.semicolon = s.semicolon ∧
      lineEnd source.toList s.semicolon.stop = a.above.length := by
  obtain ⟨hmem, htext⟩ := semicolon_of_mem (List.mem_of_getLast? hs)
  rw [placed_tokens] at hmem
  obtain ⟨upTo, behind, hfront⟩ := List.append_of_mem (List.mem_filter.mp hmem).1
  obtain ⟨more, hmore⟩ := h.start
  -- the source from the semicolon on
  have hsource : source.toList =
      textOf (upTo ++ [s.semicolon]) ++ textOf (behind ++ f.heading.ret :: more) := by
    rw [← textOf_tokenize source, h.tokens, hmore, hfront]
    simp
  have hstop : s.semicolon.stop = (textOf (upTo ++ [s.semicolon])).length := by
    have hlaid := tokenize_laid source
    rw [h.tokens, hfront, List.append_assoc, List.cons_append] at hlaid
    rw [hlaid.place.2]
    simp
  obtain ⟨gap, below, hcut, hend, hgap⟩ :=
    lineEnd_spec (textOf (upTo ++ [s.semicolon])) (textOf (behind ++ f.heading.ret :: more))
  rw [← hsource, ← hstop] at hend
  rcases hgap with rfl | ⟨hrest, hbelow⟩
  · refine ⟨⟨upTo, s.semicolon, behind, [], textOf behind⟩,
      ⟨⟨s, hs, rfl⟩, hfront, htext, rfl, Or.inl rfl⟩, rfl, ?_⟩
    rw [hend, hstop]
    simp [Anchor.above]
  · have hlex : lexemes (gap ++ below) = behind.map lexeme ++ f.heading.ret.lexeme :: more.map lexeme := by
      have hall : lexemes source.toList =
          (upTo ++ [s.semicolon]).map lexeme ++ (behind ++ f.heading.ret :: more).map lexeme := by
        show (tokenize source).map lexeme = _
        rw [h.tokens, hmore, hfront]
        simp
      have := (row_of_lexemes hall).2
      rw [joined_map_lexeme, hcut] at this
      rw [this]
      simp
    have hret : Lexeme.isSignificant f.heading.ret.lexeme = true := by
      have : f.heading.ret ∈ significant (tokenize source) := by rw [h.entry.cut]; simp [Heading.tokens]
      exact (List.mem_filter.mp this).2
    obtain ⟨c, cs, hstart, hc⟩ := startsWith_vectorType h.entry.valid.1
    obtain ⟨mid, hmid, rfl⟩ := hrest.within hbelow hret (by rw [Token.lexeme, hstart]; exact hc)
      (by rw [← hlex, joined_lexemes]) hlex
    rw [joined_map_lexeme] at hmid
    refine ⟨⟨upTo, s.semicolon, behind, gap, mid⟩, ⟨⟨s, hs, rfl⟩, hfront, htext, hmid,
      Or.inr ⟨hrest, ?_⟩⟩, rfl, ?_⟩
    · cases mid with
      | nil =>
        rw [List.nil_append, joined_cons, Token.lexeme, hstart] at hbelow
        have : c ≠ '\n' := by intro heq; subst heq; revert hc; decide
        simp [endsLine, this] at hbelow
      | cons d mid => simpa [endsLine] using hbelow
    · rw [hend, hstop]
      simp [Anchor.above, Nat.add_assoc]

/-! ## The insertions -/

theorem insertions_of_anchor {f : Found} {source : String} (h : f.Of source) {a : Anchor}
    {s : UniformStatement}
    (hs : f.statements.getLast? = some s)
    (hend : lineEnd source.toList s.semicolon.stop = a.above.length) (ha : a.Of f) :
    insertions source.toList f.entry =
      [.insertion a.above.length f.declarations, .insertion (a.above ++ a.below).length f.helpers] := by
  have hne : f.statements ≠ [] := by
    intro hnil
    rw [hnil] at hs
    cases hs
  have hstart : f.entry.returnType.start = (a.above ++ a.below).length := by
    rw [← ha.front_text]
    exact h.start_place
  unfold insertions
  have hs' : (uniformStatements f.entry.before).getLast? = some s := hs
  simp only [hs', hend, hstart, Found.declarations, if_neg hne]
  rfl

theorem insertions_of_none {f : Found} {source : String} (h : f.Of source) (hs : f.statements = []) :
    insertions source.toList f.entry = [.insertion (textOf f.front).length
      (f.declarations ++ f.helpers)] := by
  have hstart : f.entry.returnType.start = (textOf f.front).length := h.start_place
  have hs' : uniformStatements f.entry.before = [] := hs
  have hadded : newUniforms (declaredNames []) f.entry.dialect = f.added := by rw [Found.added, hs]; rfl
  have hhelpers : (f.entry.dialect.helpers ++ "\n").toList = f.helpers := rfl
  unfold insertions
  simp only [hs', List.getLast?_nil, hstart, hadded]
  rw [Found.declarations, if_pos hs, ← hhelpers, ← String.toList_append]

/-! ## The text that is made -/

/-- The text that the pass makes of a source with these parts. -/
inductive Made (f : Found) : List Char → Prop
  | above : f.statements = [] → Made f (textOf f.front ++ (f.declarations ++ (f.helpers ++ f.swapped)))
  | apart {a : Anchor} : a.Of f → a.below ≠ [] →
      Made f (a.above ++ (f.declarations ++ (a.below ++ (f.helpers ++ f.swapped))))
  | glued {a : Anchor} : a.Of f → a.below = [] →
      Made f (a.above ++ (f.helpers ++ (f.declarations ++ f.swapped)))

theorem Found.Of.swaps_ne_nil {f : Found} {source : String} (h : f.Of source) :
    ∀ s ∈ f.swaps, s.old ≠ [] := by
  intro s hs
  obtain ⟨c, hc, rfl⟩ := List.mem_map.mp hs
  obtain ⟨t, more, hcut⟩ := List.exists_cons_of_ne_nil (h.sound c hc).nonempty
  have hmem : t.lexeme ∈ lexemes source.toList := by
    refine List.mem_map_of_mem (f := lexeme) (show t ∈ tokenize source from ?_)
    have : t ∈ Cut.tokens f.cuts := List.mem_flatMap.mpr ⟨c, hc, by simp [hcut]⟩
    rw [h.tokens]
    simp [this]
  have hrow := (row_of_lexemes (List.append_nil (lexemes source.toList)).symm).1.ne_nil _ hmem
  show textOf c.argument ≠ []
  rw [hcut, textOf_cons]
  exact List.append_ne_nil_of_left_ne_nil hrow _

namespace Found

variable {f : Found} {source : String}

/-- The source with the edits of the plan made. -/
def edited (f : Found) (source : String) : List Char :=
  Edit.apply source.toList (Swap.edits (textOf f.front).length f.swaps ++ insertions source.toList f.entry)

theorem Of.text_eq (h : f.Of source) :
    source.toList = textOf f.front ++ (Swap.before f.swaps ++ textOf f.tail) := by
  rw [Found.swaps, Cut.before_swaps]
  exact h.text

theorem Of.edited_of_none (h : f.Of source) (hs : f.statements = []) :
    f.edited source = textOf f.front ++ (f.declarations ++ (f.helpers ++ f.swapped)) := by
  rw [edited, insertions_of_none h hs, h.text_eq, Edit.apply_edits h.swaps_ne_nil (Edit.descends_insertion _ _),
    Edit.apply_insertion, List.append_assoc, List.append_assoc]
  rfl

theorem Of.edited_of_anchor (h : f.Of source) {a : Anchor} {s : UniformStatement}
    (hs : f.statements.getLast? = some s) (hend : lineEnd source.toList s.semicolon.stop = a.above.length)
    (ha : a.Of f) :
    f.edited source =
      if a.below = [] then a.above ++ (f.helpers ++ (f.declarations ++ f.swapped))
      else a.above ++ (f.declarations ++ (a.below ++ (f.helpers ++ f.swapped))) := by
  rw [edited, insertions_of_anchor h hs hend ha, h.text_eq, ha.front_text,
    Edit.apply_edits h.swaps_ne_nil (Edit.descends_two_insertions _ _ _ _), Edit.apply_two_insertions]
  split <;> simp [swapped]

end Found

theorem exists_edited {source : String} {p : Plan}
    (h : plan source.toList (significant (tokenize source)) = .ok p) :
    ∃ f : Found, f.Of source ∧ wrap source = ⟨String.ofList (f.edited source), .applied f.cuts.length⟩ := by
  obtain ⟨f, hf, rfl⟩ := exists_found h
  refine ⟨f, hf, ?_⟩
  rw [wrap, h]
  simp only [Swap.length_edits, Found.swaps, List.length_map, Found.edited]

/-- What becomes of a source that gets a plan. -/
theorem exists_made {source : String} {p : Plan}
    (h : plan source.toList (significant (tokenize source)) = .ok p) :
    ∃ f : Found, f.Of source ∧ (wrap source).note = .applied f.cuts.length ∧
      Made f (wrap source).source.toList := by
  obtain ⟨f, hf, hwrap⟩ := exists_edited h
  refine ⟨f, hf, by rw [hwrap], ?_⟩
  rw [hwrap, String.toList_ofList]
  cases hs : f.statements.getLast? with
  | none =>
    have hnil : f.statements = [] := List.getLast?_eq_none_iff.mp hs
    rw [hf.edited_of_none hnil]
    exact .above hnil
  | some s =>
    obtain ⟨a, ha, -, hend⟩ := exists_anchor hf hs
    rw [hf.edited_of_anchor hs hend ha]
    split
    · exact .glued ha ‹_›
    · exact .apart ha ‹_›

end ShaderLoom.Morph
