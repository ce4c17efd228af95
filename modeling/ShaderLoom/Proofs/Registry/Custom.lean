/-
  ShaderLoom.Proofs.Registry.Custom — custom shaders, strict or not.

  A configuration that the schema passes is made outright, by a strict registry as by any other
  (`generate_outright`); one that it does not pass is refused by a strict registry, which leaves the
  session untouched, and by any other is noted and then made all the same. Composing never ends in a
  fault of configurations (`Fault.not_isOfConfig`), so such a fault tells a refusal. Nothing of it shows
  in the ids kept or in any later reply (`customShader_outcome`). Where the verdict itself cannot be told,
  for a number that is too long to be written out, the registry fails over that, strict or not, and there
  is no refusal and no warning (`longName_custom`).
-/

import ShaderLoom.Proofs.Registry.Alike
import ShaderLoom.Proofs.Registry.Transparent

namespace ShaderLoom

/-- The faults that tell of a configuration or a catalog that is not as it should be. -/
def Fault.isOfConfig : Fault → Bool
  | .invalidConfig _ _ | .invalidCustomShader _ _ | .noDefaultShader | .misfiledPreset _ _ | .repeatedName _ => true
  | _ => false

theorem Fault.not_isOfConfig {fault : Fault} (h : fault.isOfComposing = true) : fault.isOfConfig = false := by
  cases fault <;> first | rfl | cases h

namespace Registry

variable {r : Registry} {time : String} {c : ShaderConfig} {s : Session} {fault : Fault} {files : Files}

/-! ## Made outright -/

/-- The record of a custom shader that was made; one that was not has none. -/
def customItems (time : String) : Except Fault ShaderEntry → List Item
  | .ok e => [⟨e, false, time⟩]
  | .error _ => []

def customNotes (c : ShaderConfig) : Except Fault ShaderEntry → List String
  | .ok _ => madeNotes c
  | .error _ => []

/-- A configuration composed directly, whatever the schema says of it: the shader and its one record, or
the fault of composing and no record. The warnings come first. -/
structure Outright (r : Registry) (time : String) (c : ShaderConfig) (warnings : List String) (s : Session)
    (answer : Except Fault ShaderEntry × Session) : Prop where
  shader : answer.1.map ShaderEntry.shader = Shader.make c
  composed : answer.2.composed = s.composed ++ [c.id]
  logged : r.Logged (customItems time answer.1) s.files answer.2.files
  unlogged : ∀ fault, answer.1 = .error fault → answer.2.files = s.files
  notes : answer.2.notes = s.notes ++ (warnings ++ customNotes c answer.1)

theorem generate_outright (hlog : r.Logs (r.generate time c false s).1) :
    Outright r time c [] s (r.generate time c false s) := by
  cases hc : Program.compose c with
  | error fault =>
    rw [generate_of_error hc]
    exact {
      shader := by rw [Shader.make, hc]; rfl
      composed := rfl
      logged := logged_nil _
      unlogged := fun _ _ => rfl
      notes := (List.append_nil _).symm }
  | ok source =>
    rw [generate_of_ok hc] at hlog ⊢
    cases hwrite : (r.write (recordOf c source false time) s.files).1 with
    | error fault =>
      obtain ⟨hpath, hfault⟩ := write_fault hwrite
      rw [hwrite] at hlog
      exact absurd (logs_error_iff.mp hlog) (by simp [hpath, hfault])
    | ok written =>
      exact {
        shader := by rw [Shader.make, hc]; rfl
        composed := rfl
        logged := logged_write (i := ⟨⟨s.made, c, source⟩, false, time⟩) hwrite
        unlogged := by
          intro fault hfault
          cases hfault
        notes := rfl }

/-- What is said before a shader is made stays before what is said of it. -/
theorem Outright.warned {warning : String} {answer : Except Fault ShaderEntry × Session}
    (h : Outright r time c [] (note [c.name] warning s) answer) (hname : c.name.isPrintable = true) :
    Outright r time c [warning] s answer := by
  have hnoted : noted [c.name] warning = [warning] := if_pos (by simpa using hname)
  rw [note_eq, hnoted] at h
  exact {
    shader := h.shader
    composed := h.composed
    logged := h.logged
    unlogged := h.unlogged
    notes := by
      rw [h.notes]
      exact List.append_assoc _ _ _ }

/-- A shader that was made outright fails for no reason of its configuration. -/
theorem Outright.notOfConfig {warnings : List String} {answer : Except Fault ShaderEntry × Session}
    (h : Outright r time c warnings s answer) (hfault : answer.1 = .error fault) : fault.isOfConfig = false := by
  have hmake := h.shader
  rw [hfault, Shader.make] at hmake
  cases hc : Program.compose c with
  | error fault' =>
    rw [hc] at hmake
    cases hmake
    exact Fault.not_isOfConfig (Program.compose_composing c fault hc)
  | ok source =>
    rw [hc] at hmake
    cases hmake

/-! ## Strict or not -/

/-- A custom shader changes nothing that shows later, whatever its id and name. -/
theorem alike_customShader (r : Registry) (time : String) (c : ShaderConfig) (s : Session) :
    Alike r (r.customShader time c s).2 s := by
  have hcustomizing := customShader_customizing r time c s
  generalize r.customShader time c s = answer at hcustomizing ⊢
  cases hcustomizing with
  | untold => exact alike_refl r s
  | valid => exact alike_generate r time c false s
  | refused => exact alike_refl r s
  | warned => exact (alike_generate r time c false _).trans (alike_note r _ _ s)

/-- What a custom shader comes to. -/
structure Custom (r : Registry) (time : String) (c : ShaderConfig) (s : Session)
    (answer : Except Fault ShaderEntry × Session) : Prop where
  told : (∃ problems, c.validate = .ok (.failed problems)) ∨ c.validate = .ok .passed ∨
    (c.validate = .error .unprintable ∧ c.Wordless)
  strict : r.strict = true → ((∃ fault, answer.1 = .error fault ∧ fault.isOfConfig = true) ↔
    ∃ problems, c.validate = .ok (.failed problems))
  refused : r.strict = true → ∀ problems, c.validate = .ok (.failed problems) →
    answer = (.error (.invalidCustomShader c.name problems), s)
  valid : c.validate = .ok .passed → Outright r time c [] s answer ∧
    ∀ strict, customShader { r with strict } time c s = answer
  relaxed : r.strict = false → ∀ problems, c.validate = .ok (.failed problems) →
    Outright r time c [invalidNote c problems] s answer
  untold : c.validate = .error .unprintable → answer = (.error .unprintable, s)
  unnoticed : Unnoticed r s answer.2

/-- A custom shader whose verdict is told is refused exactly by a strict registry for what the schema
finds, and is else made outright; one whose verdict is not told comes to nothing. In no case does it show
later. -/
theorem customShader_outcome (hlog : r.Logs (r.customShader time c s).1) :
    Custom r time c s (r.customShader time c s) := by
  have hvalid : c.validate = .ok .passed → Outright r time c [] s (r.customShader time c s) := by
    intro h
    rw [customShader_of_valid h rfl] at hlog ⊢
    exact generate_outright hlog
  refine ⟨c.validate_cases, fun hstrict => ⟨?_, ?_⟩, fun hstrict problems h => customShader_of_refused h rfl hstrict time s,
    fun h => ⟨hvalid h, fun strict => ?_⟩, fun hstrict problems h => ?_, fun h => customShader_of_untold h r time s,
    (alike_customShader r time c s).unnoticed⟩
  · intro ⟨fault, hfault, hconfig⟩
    rcases c.validate_cases with hfailed | hpassed | ⟨huntold, -⟩
    · exact hfailed
    · rw [(hvalid hpassed).notOfConfig hfault] at hconfig
      cases hconfig
    · rw [customShader_of_untold huntold] at hfault
      cases hfault
      cases hconfig
  · intro ⟨problems, h⟩
    rw [customShader_of_refused h rfl hstrict]
    exact ⟨_, rfl, rfl⟩
  · rw [customShader_of_valid h rfl, customShader_of_valid h rfl]
    rfl
  · rw [customShader_of_warned h rfl hstrict] at hlog ⊢
    exact (generate_outright hlog).warned (ShaderConfig.name_of_validate h)

/-- A custom shader under the id and name of a preset. -/
def customSeven (effect : String) : ShaderConfig := smallConfig 7 "SEVEN" effect

/-- An effect that there is not, refused and then only warned of, and one that there is. -/
theorem customSeven_outcomes : ∃ r, ofCatalog smallCatalog true (some "small.jsonl") = .ok r ∧
    (∃ problems, (customSeven "no_effect").validate = .ok (.failed problems)) ∧
    (customSeven "crystalline").validate = .ok .passed ∧
    r.Logs (r.customShader "09:00" (customSeven "no_effect") {}).1 ∧
    Custom r "09:00" (customSeven "no_effect") {} (r.customShader "09:00" (customSeven "no_effect") {}) ∧
    Custom { r with strict := false } "09:01" (customSeven "no_effect") {}
      (customShader { r with strict := false } "09:01" (customSeven "no_effect") {}) ∧
    Custom r "09:02" (customSeven "crystalline") {} (r.customShader "09:02" (customSeven "crystalline") {}) := by
  obtain ⟨r, h⟩ := smallCatalog_ok
  have hlog : ∀ strict time effect,
      Logs { r with strict } (customShader { r with strict } time (customSeven effect) {}).1 := by
    intro strict time effect
    have hready : Ready r {} := smallLog_ready h
    have hready : Ready { r with strict } {} := fun path hpath => hready path hpath
    exact Or.inr (customShader_safe hready (smallConfig_fits (by decide) (by decide)) time).clear
  have hverdicts : (customSeven "no_effect").validate.toOption.map Verdict.ok = some false ∧
      (customSeven "crystalline").validate.toOption.map Verdict.ok = some true := by
    decide +kernel
  have hfailed : ∃ problems, (customSeven "no_effect").validate = .ok (.failed problems) := by
    rcases (customSeven "no_effect").validate_cases with hfailed | hpassed | ⟨huntold, -⟩
    · exact hfailed
    · cases hpassed ▸ hverdicts.1
    · cases huntold ▸ hverdicts.1
  have hpassed : (customSeven "crystalline").validate = .ok .passed := by
    rcases (customSeven "crystalline").validate_cases with ⟨problems, hfailed⟩ | hpassed | ⟨huntold, -⟩
    · cases hfailed ▸ hverdicts.2
    · exact hpassed
    · cases huntold ▸ hverdicts.2
  exact ⟨r, h, hfailed, hpassed, hlog r.strict _ _, customShader_outcome (hlog r.strict _ _),
    customShader_outcome (hlog false _ _), customShader_outcome (hlog r.strict _ _)⟩

/-- A custom shader whose name is a number too long to be written out. -/
def customLong : ShaderConfig := { customSeven "stippled" with name := .int Value.longNumber }

/-- The schema finds that the name is no text, and yet a strict registry does not say so and no other
warns of it. -/
theorem longName_custom : customLong.verdict.ok = false ∧
    ∀ r time s, customShader r time customLong s = (.error .unprintable, s) := by
  have hname : Entries.get? "name" customLong.toEntries = some (.int Value.longNumber) := rfl
  have hproblem : ⟨none, [.key "name"]⟩ ∈ (judge customLong.toValue).problems :=
    mem_judge_map.mpr (wordless_name hname Value.longNumber_unprintable)
  constructor
  · rw [ShaderConfig.verdict]
    cases hverdict : judge customLong.toValue with
    | passed =>
      rw [hverdict] at hproblem
      cases hproblem
    | failed | notAMapping => rfl
  · have hvalidate : customLong.validate = .error .unprintable := validate_of_wordless hproblem rfl
    exact fun r time s => customShader_of_untold hvalidate r time s

end Registry

end ShaderLoom
