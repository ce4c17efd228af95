/-
  ShaderLoom.Proofs.Morph.Changed — the pass made twice.

  A source is changed exactly when it gets a plan (`source_ne_iff`): the new text has the name
  `u_morphProgress`, the old one has not. So the second pass finds that name and leaves everything
  as it is (`wrap_idempotent`).
-/

import ShaderLoom.Proofs.Morph.Splice

namespace ShaderLoom.Morph

open ShaderLoom.Token ShaderLoom.Text
open ShaderLoom.Lexeme hiding significant isSignificant

/-- The plan for a source, or why it gets none. -/
def planOf (source : String) : Except Note Plan := plan source.toList (significant (tokenize source))

theorem wrap_of_error {source : String} {note : Note} (h : planOf source = .error note) :
    wrap source = ⟨source, note⟩ := by
  unfold planOf at h
  rw [wrap, h]

theorem planOf_of_progress {source : String}
    (h : name "u_morphProgress" ∈ Lexeme.significant source.toList) :
    planOf source = .error .alreadyMorphing := by
  rw [← significant_tokens] at h
  obtain ⟨t, ht, hname⟩ := List.mem_map.mp h
  have htext : t.text = "u_morphProgress" := String.toList_inj.mp (congrArg Prod.snd hname)
  have hany : (significant (tokenize source)).any (·.text == "u_morphProgress") = true :=
    List.any_eq_true.mpr ⟨t, ht, by simp [htext]⟩
  rw [planOf, plan, if_pos hany]

/-- What a plan makes of a source has the name in it. -/
theorem progress_of_plan {source : String} {p : Plan} (h : planOf source = .ok p) :
    planOf (wrap source).source = .error .alreadyMorphing := by
  obtain ⟨f, hf, -, hmade⟩ := exists_made h
  exact planOf_of_progress (progress_of_made hf hmade)

theorem source_ne_iff {source : String} : (wrap source).source ≠ source ↔ ∃ p, planOf source = .ok p := by
  constructor
  · intro h
    cases hplan : planOf source with
    | error note => exact absurd (by rw [wrap_of_error hplan]) h
    | ok p => exact ⟨p, rfl⟩
  · intro h heq
    obtain ⟨p, hp⟩ := h
    have := progress_of_plan hp
    rw [heq, hp] at this
    cases this

theorem source_ne_of_plan {source : String} (h : (planOf source).toBool = true) :
    (wrap source).source ≠ source := by
  refine source_ne_iff.mpr ?_
  cases hplan : planOf source with
  | error note =>
    rw [hplan] at h
    cases h
  | ok p => exact ⟨p, rfl⟩

/-- A shader with one return to change. -/
def smallShader : String := "uniform float2 u_resolution; // size
half4 main(float2 p) \x7b return half4(p, 0.0, 0.5); \x7d"

theorem smallShader_changed : (wrap smallShader).source ≠ smallShader :=
  source_ne_of_plan (by decide +kernel)

/-- A second pass changes nothing, and after a change it says why. -/
theorem wrap_idempotent (source : String) :
    (wrap (wrap source).source).source = (wrap source).source ∧
      ((wrap source).source ≠ source → (wrap (wrap source).source).note = .alreadyMorphing) := by
  cases hplan : planOf source with
  | error note =>
    have hwrap := wrap_of_error hplan
    refine ⟨by rw [hwrap, hwrap], fun hne => absurd ?_ hne⟩
    rw [hwrap]
  | ok p =>
    have hwrap := wrap_of_error (progress_of_plan hplan)
    exact ⟨by rw [hwrap], fun _ => by rw [hwrap]⟩

theorem smallShader_stays_once_made :
    (wrap smallShader).source ≠ smallShader ∧
      (wrap (wrap smallShader).source).source = (wrap smallShader).source ∧
        (wrap (wrap smallShader).source).note = .alreadyMorphing :=
  ⟨smallShader_changed, (wrap_idempotent smallShader).1, (wrap_idempotent smallShader).2 smallShader_changed⟩

end ShaderLoom.Morph
