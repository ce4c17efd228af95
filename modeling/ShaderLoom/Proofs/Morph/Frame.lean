/-
  ShaderLoom.Proofs.Morph.Frame — what the pass leaves as it is.

  A changed source and what it becomes lie over each other stretch by stretch (`Frame`): the new
  text has the declarations and the helpers put in before the entry point and behind it the last
  arguments of returns swapped, and nothing else (`wrap_frame`). The helpers stand right before
  the entry point, unless the declarations do too. An argument is swapped for the morph alpha in a
  cast, alone where the argument is worth one and else as a factor (`Swaps`).
-/

import ShaderLoom.Proofs.Morph.Changed
import ShaderLoom.Proofs.Token.Numbers

namespace ShaderLoom.Morph

open ShaderLoom.Token
open ShaderLoom.Reading (Spells)

/-! ## What is put in -/

/-- One number literal, of a decimal that is one as a float. -/
def WorthOne (ts : List Token) : Prop :=
  ∃ t d, ts = [t] ∧ t.kind = .number ∧ Spells t.numeral d ∧ d.toBinary64 false = Binary64.one

theorem isUnit_iff {source : String} {ts : List Token} (h : ∀ t ∈ ts, t ∈ tokenize source) :
    isUnit ts = true ↔ WorthOne ts := by
  constructor
  · intro hunit
    unfold isUnit at hunit
    split at hunit
    · rename_i t
      obtain ⟨hkind, hread⟩ := Bool.and_eq_true_iff.mp hunit
      have hkind := of_decide_eq_true hkind
      obtain ⟨d, hspells⟩ := exists_spells (h t List.mem_cons_self) hkind
      rw [← numeral, number?_numeral hspells] at hread
      exact ⟨t, d, rfl, hkind, hspells, Option.some.inj (eq_of_beq hread)⟩
    · cases hunit
  · rintro ⟨t, d, rfl, hkind, hspells, hone⟩
    have hread := number?_numeral hspells
    rw [hone, numeral] at hread
    simp [isUnit, hkind, hread]

/-- How an argument is swapped, behind the text that is kept before it: for the morph alpha at a place, cast
to the scalar of the vector that is returned. -/
structure Swaps (place : String) (c : Cut) (s : Swap Char) : Prop where
  kept : s.kept = textOf c.kept
  old : s.old = textOf c.argument
  new : ∃ cast, (c.vector, cast) ∈ [("half4", "half"), ("float4", "float"), ("vec4", "float")] ∧
    (WorthOne (significant c.argument) ∧ String.ofList s.new =
        cast ++ "(getMorphAlpha(" ++ place ++ ", u_resolution, u_morphProgress, u_morphDirection))" ∨
      ¬WorthOne (significant c.argument) ∧ String.ofList s.new = cast ++ "((" ++ String.ofList (textOf c.argument) ++
        ") * getMorphAlpha(" ++ place ++ ", u_resolution, u_morphProgress, u_morphDirection))")

theorem Cut.swaps {source : String} {c : Cut} (hsound : c.Sound)
    (h : ∀ t ∈ significant c.argument, t ∈ tokenize source) (place : String) : Swaps place c (c.swap place) where
  kept := rfl
  old := rfl
  new := by
    have hcast : (c.vector, scalarOf c.vector) ∈ [("half4", "half"), ("float4", "float"), ("vec4", "float")] := by
      have hvector := hsound.vector
      simp only [vectorTypes, List.mem_cons, List.not_mem_nil, or_false] at hvector
      rcases hvector with hvector | hvector | hvector <;> rw [hvector] <;> decide
    have hcall : ("(getMorphAlpha(" : String) = "(" ++ "getMorphAlpha(" := rfl
    have htimes : (") * getMorphAlpha(" : String) = ") * " ++ "getMorphAlpha(" := rfl
    have hclose : (", u_resolution, u_morphProgress, u_morphDirection))" : String) =
        ", u_resolution, u_morphProgress, u_morphDirection)" ++ ")" := rfl
    refine ⟨_, hcast, ?_⟩
    rw [← isUnit_iff h, Cut.swap, String.ofList_toList, Cut.replacement]
    cases isUnit (significant c.argument) with
    | true => exact Or.inl ⟨rfl, by simp only [if_true, alphaCall, hcall, hclose, String.append_assoc]⟩
    | false =>
      refine Or.inr ⟨Bool.false_ne_true, ?_⟩
      simp only [Bool.false_eq_true, if_false, alphaCall, htimes, hclose, String.append_assoc]

namespace Found

variable {f : Found} {source : String}

theorem Of.all_swaps (hf : f.Of source) : List.Forall₂ (Swaps f.heading.name.text) f.cuts f.swaps := by
  refine List.forall₂_map_right_iff.mpr (List.forall₂_same.mpr fun c hc => ?_)
  have hmem : ∀ t ∈ significant c.argument, t ∈ tokenize source := by
    intro t ht
    have hcut : t ∈ Cut.tokens f.cuts :=
      List.mem_flatMap.mpr ⟨c, hc, List.mem_append_right _ (List.mem_filter.mp ht).1⟩
    exact hf.tokens ▸ List.mem_append_right _ (List.mem_append_left _ hcut)
  exact Cut.swaps (hf.sound c hc) hmem _

/-- The size of the surface, unless it is declared, how far a morph is and which way it goes. -/
theorem added_eq (f : Found) : f.added = (if "u_resolution" ∈ declaredNames f.statements then [] else
      [if f.heading.dialect = .vec then "uniform vec2 u_resolution;" else "uniform float2 u_resolution;"]) ++
    ["uniform float u_morphProgress;", "uniform float u_morphDirection;"] := by
  rw [added, newUniforms, uniforms]
  simp only [List.contains_iff_mem]
  cases f.heading.dialect <;> rfl

end Found

/-! ## The frame -/

/-- How a source and what it becomes lie over each other. -/
structure Frame (f : Found) (source : String) (made : Wrapped) (above below : List Char) : Prop where
  parts : f.Of source
  source_eq : source.toList = above ++ (below ++ (Swap.before f.swaps ++ textOf f.tail))
  /-- The declarations go at one offset up to the entry point, the helpers right before it. -/
  made_eq :
    made.source.toList =
        above ++ (f.declarations ++ (below ++ (f.helpers ++ (Swap.after f.swaps ++ textOf f.tail)))) ∨
      below = [] ∧ made.source.toList =
        above ++ (f.helpers ++ (f.declarations ++ (Swap.after f.swaps ++ textOf f.tail)))
  start : f.heading.ret.start = (above ++ below).length
  /-- No two of the swapped stretches share a character, and none is empty. -/
  apart : (Swap.edits f.heading.ret.start f.swaps).Pairwise fun e e' => e.stop ≤ e'.start
  nonempty : ∀ s ∈ f.swaps, s.old ≠ []
  swaps : List.Forall₂ (Swaps f.heading.name.text) f.cuts f.swaps
  /-- Each is the last argument of a return in the body, from its first to its last significant token. -/
  argument : ∀ c ∈ f.cuts, ∃ pre post, f.body = pre ++ (significant c.argument ++ post) ∧
    ReturnsAt pre c.site post ∧ c.argument.head? = (significant c.argument).head? ∧
      c.argument.getLast? = (significant c.argument).getLast?
  added : f.added = (if "u_resolution" ∈ declaredNames f.statements then [] else
      [if f.heading.dialect = .vec then "uniform vec2 u_resolution;" else "uniform float2 u_resolution;"]) ++
    ["uniform float u_morphProgress;", "uniform float u_morphDirection;"]
  note : made.note = .applied f.swaps.length
  pos : 0 < f.swaps.length

theorem wrap_frame {source : String} (h : (wrap source).source ≠ source) :
    ∃ f above below, Frame f source (wrap source) above below := by
  obtain ⟨p, hp⟩ := source_ne_iff.mp h
  obtain ⟨f, hf, hnote, hmade⟩ := exists_made hp
  have hlen : f.swaps.length = f.cuts.length := List.length_map _
  have hsome : 0 < f.swaps.length := by
    rw [hlen]
    exact List.length_pos_iff.mpr hf.nonempty
  have htext : source.toList = textOf f.front ++ (Swap.before f.swaps ++ textOf f.tail) := by
    rw [Found.swaps, Cut.before_swaps]
    exact hf.text
  have hargument : ∀ c ∈ f.cuts, ∃ pre post, f.body = pre ++ (significant c.argument ++ post) ∧
      ReturnsAt pre c.site post ∧ c.argument.head? = (significant c.argument).head? ∧
        c.argument.getLast? = (significant c.argument).getLast? := by
    intro c hc
    have hsite : c.site ∈ returns f.body := hf.sites ▸ List.mem_map_of_mem hc
    obtain ⟨pre, post, hbody, hat⟩ := (returns_split f.body).of_mem hsite
    exact ⟨pre, post, hbody, hat, (hf.sound c hc).first, (hf.sound c hc).last⟩
  rw [← hlen] at hnote
  have hframe : ∀ above below, textOf f.front = above ++ below →
      ((wrap source).source.toList = above ++ (f.declarations ++ (below ++ (f.helpers ++ f.swapped))) ∨
        below = [] ∧ (wrap source).source.toList = above ++ (f.helpers ++ (f.declarations ++ f.swapped))) →
      Frame f source (wrap source) above below := by
    intro above below hfront hnew
    refine ⟨hf, ?_, hnew, ?_, Swap.pairwise_edits _ _, hf.swaps_ne_nil, hf.all_swaps, hargument,
      f.added_eq, hnote, hsome⟩
    · rw [htext, hfront, List.append_assoc]
    · rw [hf.start_place, hfront]
  generalize hnew : (wrap source).source.toList = made at hmade
  cases hmade with
  | above hs => exact ⟨f, textOf f.front, [], hframe _ _ (by simp) (Or.inl hnew)⟩
  | @apart a ha hbelow => exact ⟨f, a.above, a.below, hframe _ _ ha.front_text (Or.inl hnew)⟩
  | @glued a ha hbelow => exact ⟨f, a.above, a.below, hframe _ _ ha.front_text (Or.inr ⟨hbelow, hnew⟩)⟩

theorem smallShader_frame :
    (wrap smallShader).source ≠ smallShader ∧
      ∃ f above below, Frame f smallShader (wrap smallShader) above below :=
  ⟨smallShader_changed, wrap_frame smallShader_changed⟩

end ShaderLoom.Morph
