/-
  ShaderLoom.Proofs.Program.Composed — the parts that a source is put together from.

  A source is there exactly when both tags name a kind, the name can be written out and every number
  that it writes has a literal.
  Then it is its parts one after another (`partsWith`), the entry point among them with the texts of
  the numbers in place (`compose_eq_ok_iff`).
-/

import ShaderLoom.Program
import ShaderLoom.Proofs.Outcome
import ShaderLoom.Proofs.Value.Printable

namespace ShaderLoom

open Outcome

theorem tag_of_find? {α : Type} {tag : α → String} {all : List α} {s : String} {kind : α}
    (h : all.find? (tag · == s) = some kind) : tag kind = s :=
  eq_of_beq (List.find?_some (p := (tag · == s)) h)

/-- What a value names in a closed set of tags is what its text is the tag of. -/
theorem Value.named_eq_ok_iff {α : Type} {tag : α → String} {find? : String → Option α} {unknown : Value → Fault}
    {v : Value} {a : α} (find?_tag : ∀ a, find? (tag a) = some a) (tag_of_find? : ∀ {s a}, find? s = some a → tag a = s) :
    v.named find? unknown = .ok a ↔ v = .str (tag a) := by
  constructor
  · intro h
    cases v with
    | str s =>
      rw [named] at h
      cases hfound : find? s with
      | none =>
        rw [hfound] at h
        cases h
      | some found =>
        rw [hfound] at h
        cases h
        rw [tag_of_find? hfound]
    | _ => cases h
  · rintro rfl
    rw [named, find?_tag]
    rfl

theorem EffectKind.ofValue_eq_ok_iff {v : Value} {kind : EffectKind} : ofValue v = .ok kind ↔ v = .str kind.tag :=
  Value.named_eq_ok_iff ofTag?_tag tag_of_find?

theorem NoiseKind.ofValue_eq_ok_iff {v : Value} {kind : NoiseKind} : ofValue v = .ok kind ↔ v = .str kind.tag :=
  Value.named_eq_ok_iff ofTag?_tag tag_of_find?

namespace Program

variable {c : ShaderConfig} {effect : EffectKind} {noise : NoiseKind} {time main source : String}

/-- The parts of a source with a given entry point. -/
def partsWith (c : ShaderConfig) (effect : EffectKind) (noise : NoiseKind) (main : String) : List String :=
  [headerPart c, "// Uniforms\n" ++ uniforms c] ++ palettePart c ++ noise.sources ++
    (if effect.effect.turbulent then [Noise.turbulence] else []) ++
    ["// Effect Helpers\n" ++ effect.effect.helpers, "// Main\n" ++ main]

theorem compose_of_kinds (he : c.effect = .str effect.tag) (hname : c.name.isPrintable = true)
    (hn : c.noise = .str noise.tag) :
    compose c = (fun main => fragments (partsWith c effect noise main) ++ "\n") <$> entryPoint c effect.effect := by
  rw [compose, parts, EffectKind.ofValue_eq_ok_iff.mpr he, Value.checkPrintable_eq_ok_iff.mpr hname,
    NoiseKind.ofValue_eq_ok_iff.mpr hn]
  cases h : entryPoint c effect.effect with
  | error fault =>
    show (entryPoint c effect.effect >>= _) >>= _ = _
    rw [h]
    rfl
  | ok main =>
    show (entryPoint c effect.effect >>= _) >>= _ = _
    rw [h]
    rfl

theorem compose_of_unprintable (he : c.effect = .str effect.tag) (hname : c.name.isPrintable = false) :
    compose c = .error .unprintable := by
  rw [compose, parts, EffectKind.ofValue_eq_ok_iff.mpr he, Value.checkPrintable_of_not hname]
  rfl

theorem compose_eq_ok_iff : compose c = .ok source ↔
    ∃ effect noise main, c.effect = .str (EffectKind.tag effect) ∧ c.name.isPrintable = true ∧
      c.noise = .str (NoiseKind.tag noise) ∧ entryPoint c effect.effect = .ok main ∧
      source = fragments (partsWith c effect noise main) ++ "\n" := by
  constructor
  · intro h
    obtain ⟨parts, hparts, -⟩ := bind_eq_ok.mp h
    obtain ⟨effect, heffect, hparts⟩ := bind_eq_ok.mp hparts
    obtain ⟨⟨⟩, hprintable, hparts⟩ := bind_eq_ok.mp hparts
    obtain ⟨noise, hnoise, -⟩ := bind_eq_ok.mp hparts
    have he := EffectKind.ofValue_eq_ok_iff.mp heffect
    have hname := Value.checkPrintable_eq_ok_iff.mp hprintable
    have hn := NoiseKind.ofValue_eq_ok_iff.mp hnoise
    rw [compose_of_kinds he hname hn] at h
    cases hmain : entryPoint c effect.effect with
    | error fault =>
      rw [hmain] at h
      cases h
    | ok main =>
      rw [hmain] at h
      cases h
      exact ⟨effect, noise, main, he, hname, hn, hmain, rfl⟩
  · rintro ⟨effect, noise, main, he, hname, hn, hmain, rfl⟩
    rw [compose_of_kinds he hname hn, hmain]
    rfl

end Program

end ShaderLoom
