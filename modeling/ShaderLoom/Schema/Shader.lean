/-
  ShaderLoom.Schema.Shader — the schema of a shader configuration.

  A configuration must be a mapping; then it is held to `config`, and its problems are listed in
  the order of their paths (`judge`). They are told in words (`validate`), which fails when one of
  them would show a value that cannot be written out.
-/

import ShaderLoom.Fault
import ShaderLoom.Kind
import ShaderLoom.Schema.Check

namespace ShaderLoom

namespace Schema

def rgb : NamedSchema where
  address := "https://schemas.vibeshaders.dev/0.1.0/rgb.schema.json"
  body := [
    .kinds [.list],
    .items (.rules [.kinds [.number], .least (.float .zero), .greatest (.float .one)]),
    .fewest 3,
    .most 3]

def palette : NamedSchema where
  address := "https://schemas.vibeshaders.dev/0.1.0/palette.schema.json"
  body := [
    .kinds [.mapping],
    .fields [
      ("colors", .rules [
        .kinds [.mapping],
        .fieldNames (.rules [.form .identifier]),
        .otherFields rgb.reference])],
    .closed]

def config : NamedSchema where
  address := "https://schemas.vibeshaders.dev/0.1.0/shader-config.schema.json"
  body := [
    .kinds [.mapping],
    .required ["id", "name", "noise", "time", "palette", "effect"],
    .fields [
      ("id", .rules [.kinds [.wholeNumber], .least (.int 0)]),
      ("name", .rules [.kinds [.text], .shortest 1]),
      ("description", .rules [.kinds [.text]]),
      ("fallback_color", .rules [.kinds [.text], .form .hexColor]),
      ("noise", .rules [.oneOf (NoiseKind.all.map (·.tag))]),
      ("time", .rules [
        .kinds [.mapping],
        .required ["scale"],
        .fields [
          ("scale", .rules [.kinds [.number], .above (.int 0)]),
          ("offset", .rules [.kinds [.number]])],
        .closed]),
      ("palette", palette.reference),
      ("effect", .rules [.oneOf (EffectKind.all.map (·.tag))]),
      ("effect_params", .rules [
        .kinds [.mapping],
        .otherFields (.rules [.kinds [.number, .truth, .text]])]),
      ("vignette", .rules [
        .kinds [.mapping, .nothing],
        .otherFields (.rules [.kinds [.number]])]),
      ("use_uniform_colors", .rules [.kinds [.truth]])],
    .closed]

end Schema

/-- What holding a value to the configuration schema comes to. -/
inductive Verdict where
  | notAMapping
  | failed (problems : List Problem)
  | passed
  deriving DecidableEq

namespace Verdict

def ok : Verdict → Bool
  | passed => true
  | _ => false

def reason : Verdict → String
  | notAMapping => "not_a_mapping"
  | failed _ => "validation_failed"
  | passed => "validation_passed"

def problems : Verdict → List Problem
  | notAMapping => [⟨some "shader config must be a mapping", []⟩]
  | failed problems => problems
  | passed => []

end Verdict

/-- The problems of a mapping, in the order of their paths. -/
def configProblems (entries : Entries Value) : List Problem :=
  Problem.inPathOrder (Schema.problems (.rules Schema.config.body) (.map entries))

def judge : Value → Verdict
  | .map entries =>
    match configProblems entries with
    | [] => .passed
    | problems => .failed problems
  | _ => .notAMapping

/-- What a value is judged to be, every problem told in words. -/
def validate (v : Value) : Except Fault Verdict :=
  if (judge v).problems.all (·.message.isSome) then .ok (judge v) else .error .unprintable

theorem judge_map_eq (entries : Entries Value) : judge (.map entries) =
    if configProblems entries = [] then .passed else .failed (configProblems entries) := by
  rw [judge]
  cases configProblems entries <;> rfl

end ShaderLoom
