/-
  ShaderLoom.Proofs.Morph.Relexed — what the pass means to a reader of the new text.

  With a blank before the entry point, or nothing, the significant lexemes of the new text are those
  of the source with three things spliced in (`Spliced`): the declarations behind the semicolon of
  the last uniform declaration, the helpers before the entry point, and the product in the place of
  each last argument. So the braces balance and the entry point is found again
  (`wrap_spliced`).
-/

import ShaderLoom.Proofs.Morph.Changed
import ShaderLoom.Proofs.Morph.Entry

namespace ShaderLoom.Morph

open ShaderLoom.Token ShaderLoom.Text
open ShaderLoom.Lexeme hiding significant isSignificant

/-- The entry point that is found starts the text or has a blank right before it. -/
def Spaced (source : String) : Prop :=
  ∀ entry ∈ entryOf source, ∀ c ∈ (source.toList.take entry.returnType.start).getLast?, isBlank c = true

instance (source : String) : Decidable (Spaced source) :=
  decidable_of_iff
    ((entryOf source).all (fun entry => (source.toList.take entry.returnType.start).getLast?.all isBlank) = true)
    (by simp [Spaced, Option.all_eq_true])

/-- How the significant lexemes of a source and of what it becomes lie over each other. -/
structure Spliced (f : Found) (source made : String) (upTo between : List Token) : Prop where
  parts : f.Of source
  before : f.before = upTo ++ between
  /-- The declarations go behind the last uniform declaration, or before the helpers without one. -/
  place : f.statements = [] ∧ between = [] ∨ ∃ s, f.statements.getLast? = some s ∧
    upTo.getLast? = some s.semicolon
  source_eq : (significant (tokenize source)).map lexeme =
    upTo.map lexeme ++ (between.map lexeme ++ (Swap.before f.lexemeSwaps ++ (significant f.tail).map lexeme))
  made_eq : (significant (tokenize made)).map lexeme =
    upTo.map lexeme ++ (f.addedLexemes ++ (between.map lexeme ++
      (helperLexemes f.heading.dialect ++ (Swap.after f.lexemeSwaps ++ (significant f.tail).map lexeme))))
  balanced : braceDepths (significant (tokenize made)) ≠ none
  entry : ∃ entry, entryOf made = some entry ∧ entry.returnType.text = f.heading.ret.text ∧
    entry.parameter = f.heading.name.text ∧ entry.dialect = f.heading.dialect

theorem Anchor.Of.head_getLast? {a : Anchor} {f : Found} (ha : a.Of f) :
    a.head.getLast? = some a.semicolon := by
  have hsemicolon : isSignificant a.semicolon = true := by
    obtain ⟨s, hs, heq⟩ := ha.last
    have := (semicolon_of_mem (List.mem_of_getLast? hs)).1
    rw [placed_tokens, heq] at this
    exact (List.mem_filter.mp this).2
  rw [Anchor.head, significant_append, significant, significant, List.filter_cons_of_pos hsemicolon]
  exact List.getLast?_concat

theorem wrap_spliced {source : String} (h : (wrap source).source ≠ source) (hspaced : Spaced source) :
    ∃ f upTo between, Spliced f source (wrap source).source upTo between := by
  obtain ⟨p, hp⟩ := source_ne_iff.mp h
  obtain ⟨f, hf, -, hmade⟩ := exists_made hp
  have hblank : ∀ c ∈ (textOf f.front).getLast?, isBlank c = true := by
    have := hspaced f.entry hf.entryOf_eq
    have hstart : f.entry.returnType.start = (textOf f.front).length := hf.start_place
    rwa [hstart, hf.text, List.take_left] at this
  have hspliced : ∀ upTo between, f.before = upTo ++ between →
      (f.statements = [] ∧ between = [] ∨ ∃ s, f.statements.getLast? = some s ∧
        upTo.getLast? = some s.semicolon) →
      Lexeme.significant (wrap source).source.toList = upTo.map lexeme ++ (f.addedLexemes ++ (between.map lexeme ++
        (helperLexemes f.heading.dialect ++ f.newLexemes))) →
      Spliced f source (wrap source).source upTo between := by
    intro upTo between hbefore hplace hnew
    rw [← significant_tokens] at hnew
    obtain ⟨entry, hentry, hsame⟩ := entry_of_splice hf hbefore hnew
    refine ⟨hf, hbefore, hplace, ?_, hnew, ?_, entry, hentry, hsame⟩
    · rw [hf.lexemes_eq, hbefore, List.map_append, List.append_assoc]
    · exact Option.ne_none_iff_exists'.mpr (exists_depths_iff.mpr (entryOf_eq_some_iff.mp hentry).1)
  generalize hnew : (wrap source).source.toList = made at hmade
  rw [hnew] at hspliced
  cases hmade with
  | above hs =>
    exact ⟨f, f.before, [], hspliced _ _ (by simp) (Or.inl ⟨hs, rfl⟩) (significant_above_made hf hblank)⟩
  | @apart a ha hbelow =>
    obtain ⟨s, hs, heq⟩ := ha.last
    exact ⟨f, a.head, a.between, hspliced _ _ ha.before_eq (Or.inr ⟨s, hs, by rw [ha.head_getLast?, heq]⟩)
      (significant_apart_made hf ha hbelow hblank)⟩
  | @glued a ha hbelow => exact (not_glued ha hbelow hblank).elim

theorem smallShader_spliced :
    (wrap smallShader).source ≠ smallShader ∧ Spaced smallShader ∧
      ∃ f upTo between, Spliced f smallShader (wrap smallShader).source upTo between := by
  have hspaced : Spaced smallShader := by decide
  exact ⟨smallShader_changed, hspaced, wrap_spliced smallShader_changed hspaced⟩

end ShaderLoom.Morph
