/-
  ShaderLoom.Proofs.Program.Rendered — when an accepted configuration has a usable source.

  The schema takes integers of any size, infinities and nan for numbers, so being accepted does not
  decide it. A source is usable when it can be written and every number in it is an optional sign,
  digits, a point and digits (`Usable`). For an accepted configuration that is so exactly when all its
  spliced numbers are finite (`compose_usable_iff`); an integer too large for a float leaves it
  without a source, and an infinite number stands in the source as a word.
-/

import Mathlib.Algebra.Group.Int.Defs
import ShaderLoom.Proofs.Config.Reloaded
import ShaderLoom.Proofs.Number.Pointed
import ShaderLoom.Proofs.Program.Segments

namespace ShaderLoom

open Outcome

/-- Converts to a finite number. -/
def Value.IsFinite (v : Value) : Prop := ∃ negative p, v.toNumber = .ok (.finite negative p)

instance (v : Value) : Decidable v.IsFinite :=
  match h : v.toNumber with
  | .ok (.finite negative p) => isTrue ⟨negative, p, h⟩
  | .ok .nan => isFalse fun ⟨_, _, hv⟩ => by rw [h] at hv; cases hv
  | .ok (.infinite _) => isFalse fun ⟨_, _, hv⟩ => by rw [h] at hv; cases hv
  | .error _ => isFalse fun ⟨_, _, hv⟩ => by rw [h] at hv; cases hv

namespace Program

variable {c : ShaderConfig} {segs : List Segment} {n : Value × Option Int}

/-- A row that can be written, with every number in it as a literal with digits and a point. -/
structure Usable (segs : List Segment) : Prop where
  rendered : ∃ source, render segs = .ok source
  pointed : ∀ n ∈ numbers segs, ∃ s, Literal.ofValue n.1 n.2 = .ok s ∧ Literal.IsPointed s.toList

/-- The numbers of a source are fixed to one decimal, to two or to none. -/
theorem decimals_spliced (h : n ∈ spliced c) : n.2 ∈ [none, some 1, some 2] := by
  rw [spliced] at h
  rcases List.mem_append.mp h with h | h
  · split at h
    · cases h
    · obtain ⟨color, -, h⟩ := List.mem_flatMap.mp h
      obtain ⟨x, -, rfl⟩ := List.mem_map.mp h
      simp
  · simp only [List.mem_cons, List.mem_append, List.not_mem_nil, or_false] at h
    rcases h with rfl | (h | h) | rfl | rfl | rfl | rfl
    · simp
    · split at h
      · rw [List.mem_singleton.mp h]
        simp
      · cases h
    · split at h
      · rw [List.mem_singleton.mp h]
        simp
      · rw [List.mem_singleton.mp h]
        simp
      · cases h
    all_goals simp

theorem checkDecimals_spliced (h : n ∈ spliced c) : Literal.checkDecimals n.2 = .ok () := by
  have hdecimals := decimals_spliced h
  simp only [List.mem_cons, List.not_mem_nil, or_false] at hdecimals
  rcases hdecimals with h | h | h <;> rw [h] <;> rfl

theorem literal_eq_ok_iff {v : Value} {decimals : Option Int} {s : String}
    (hd : Literal.checkDecimals decimals = .ok ()) :
    Literal.ofValue v decimals = .ok s ↔ ∃ x, v.toNumber = .ok x ∧ s = Literal.ofNumber x decimals := by
  rw [Literal.ofValue, hd]
  constructor
  · intro h
    obtain ⟨x, hx, h⟩ := bind_eq_ok.mp h
    exact ⟨x, hx, (Except.ok.inj h).symm⟩
  · rintro ⟨x, hx, rfl⟩
    rw [hx]
    rfl

/-- The literal of a number has digits and a point exactly when the number is finite. -/
theorem pointed_iff (h : n ∈ spliced c) :
    (∃ s, Literal.ofValue n.1 n.2 = .ok s ∧ Literal.IsPointed s.toList) ↔ n.1.IsFinite := by
  constructor
  · rintro ⟨s, hs, hpointed⟩
    obtain ⟨x, hx, rfl⟩ := (literal_eq_ok_iff (checkDecimals_spliced h)).mp hs
    obtain ⟨negative, p, rfl⟩ := Literal.isPointed_iff.mp hpointed
    exact ⟨negative, p, hx⟩
  · rintro ⟨negative, p, hx⟩
    exact ⟨_, (literal_eq_ok_iff (checkDecimals_spliced h)).mpr ⟨_, hx, rfl⟩, Literal.isPointed_iff.mpr ⟨negative, p, rfl⟩⟩

theorem usable_iff (h : segments c = .ok segs) : Usable segs ↔ ∀ n ∈ spliced c, n.1.IsFinite := by
  have hnumbers := numbers_segments h
  constructor
  · intro husable n hn
    exact (pointed_iff hn).mp (husable.pointed n (hnumbers ▸ hn))
  · intro hfinite
    have hpointed : ∀ n ∈ numbers segs, ∃ s, Literal.ofValue n.1 n.2 = .ok s ∧ Literal.IsPointed s.toList := by
      rw [hnumbers]
      exact fun n hn => (pointed_iff hn).mpr (hfinite n hn)
    exact ⟨render_eq_ok_iff.mpr fun n hn => (hpointed n hn).imp fun s hs => hs.1, hpointed⟩

/-- An accepted configuration is laid out as texts and its numbers. Nothing but an integer too large
for a float keeps the row from being written, and it is usable exactly when its numbers are finite. -/
theorem compose_usable_iff (hv : c.verdict = .passed) :
    ∃ segs, segments c = .ok segs ∧ numbers segs = spliced c ∧ compose c = render segs ∧
      OnlyTooLarge (compose c) ∧ (Usable segs ↔ ∀ n ∈ spliced c, n.1.IsFinite) := by
  obtain ⟨entries, hentries, hc⟩ := Shape.judge_eq_passed_iff.mp hv
  cases hentries
  have h := ShaderConfig.accepted_of_config hc
  obtain ⟨effect, heffect⟩ := h.effect
  obtain ⟨noise, hnoise⟩ := h.noise
  have hsegs := segments_of_kinds heffect h.name_printable hnoise
  refine ⟨_, hsegs, numbers_segments hsegs, ?_, compose_onlyTooLarge h, usable_iff hsegs⟩
  rw [compose_eq_render, hsegs]
  rfl

/-- Integers and floats of both signs and sizes, all of them finite. -/
def finiteNumbers : ShaderConfig where
  id := .int 1
  name := .str "A"
  description := .str ""
  fallbackColor := .str "#000000"
  noise := .str NoiseKind.hash.tag
  time := ⟨.int 2, .float (.ofRatio true 1 2)⟩
  palette := ⟨[("SKY", ⟨.zero, .one, .ofRatio false 1 3⟩)]⟩
  effect := .str EffectKind.stippled.tag
  effectParams := [("patternScale", .int (-3)), ("depth", .bool true)]
  vignette := some ⟨.int 1, .float (.ofRatio false 6 10), .int 100000000000000000000000, .int (-5)⟩

theorem finiteNumbers_usable :
    finiteNumbers.verdict = .passed ∧ (∀ n ∈ spliced finiteNumbers, n.1.IsFinite) ∧
      ∃ segs source, segments finiteNumbers = .ok segs ∧ compose finiteNumbers = .ok source ∧ Usable segs := by
  have hv : finiteNumbers.verdict = .passed := by decide +kernel
  have hfinite : ∀ n ∈ spliced finiteNumbers, n.1.IsFinite := by decide +kernel
  obtain ⟨segs, hsegs, -, hcompose, -, husable⟩ := compose_usable_iff hv
  obtain ⟨source, hsource⟩ := (husable.mpr hfinite).rendered
  exact ⟨hv, hfinite, segs, source, hsegs, hcompose.trans hsource, husable.mpr hfinite⟩

/-- The same with another pattern scale. -/
def scaledBy (v : Value) : ShaderConfig := { finiteNumbers with effectParams := [("patternScale", v)] }

/-- An integer of 310 digits is accepted and leaves no source; an infinite number is accepted and
stands in the source as a word. -/
theorem accepted_not_usable :
    (scaledBy (.int (10 ^ 309))).verdict = .passed ∧ compose (scaledBy (.int (10 ^ 309))) = .error .integerTooLarge ∧
      (scaledBy (.float (.infinite false))).verdict = .passed ∧
      (compose (scaledBy (.float (.infinite false)))).toBool = true ∧
      (.float (.infinite false), none) ∈ spliced (scaledBy (.float (.infinite false))) ∧
      Literal.ofValue (.float (.infinite false)) none = .ok "inf.0" ∧ ¬Literal.IsPointed "inf.0".toList := by
  have hlarge : (scaledBy (.int (10 ^ 309))).verdict = .passed := by decide +kernel
  have hfails : (compose (scaledBy (.int (10 ^ 309)))).toBool = false := by decide +kernel
  obtain ⟨entries, hentries, hc⟩ := Shape.judge_eq_passed_iff.mp hlarge
  cases hentries
  have hword : Literal.ofNumber (.infinite false) none = "inf.0" := by decide +kernel
  refine ⟨hlarge, ?_, by decide +kernel, by decide +kernel, by simp [spliced, scaledBy, Entries.get?],
    congrArg Except.ok hword, fun h => h.not_letter (by decide)⟩
  refine (compose_onlyTooLarge (ShaderConfig.accepted_of_config hc)).ok_or.resolve_left ?_
  rintro ⟨source, hsource⟩
  rw [hsource] at hfails
  cases hfails

end Program

end ShaderLoom
