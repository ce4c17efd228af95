/-
  ShaderLoom.Config.Amend — single fields of a configuration replaced, unchecked.
-/

import ShaderLoom.Config.Basic

namespace ShaderLoom

namespace ShaderConfig

def timingOf : Value → Except Fault Timing
  | .map entries => entries.foldlM (fun (t : Timing) (key, value) =>
      match t.setter? key with
      | some put => .ok (put value)
      | none => .error .wrongKind) {}
  | _ => .error .wrongKind

def vignetteOf : Value → Except Fault (Option Vignette)
  | .null => .ok none
  | .map entries => do
    return some (← entries.foldlM (fun (v : Vignette) (key, value) =>
      match v.setter? key with
      | some put => .ok (put value)
      | none => .error .wrongKind) Vignette.standard)
  | _ => .error .wrongKind

/-- Replaces the field of a name. A palette is taken apart and effect parameters must be a
mapping or pairs; time and vignette are given by their parts; all else is taken as it is. -/
def amend (c : ShaderConfig) (name : String) (value : Value) : Except Fault ShaderConfig :=
  match name with
  | "id" => .ok { c with id := value }
  | "name" => .ok { c with name := value }
  | "description" => .ok { c with description := value }
  | "fallback_color" => .ok { c with fallbackColor := value }
  | "noise" => .ok { c with noise := value }
  | "time" => do return { c with time := ← timingOf value }
  | "palette" => do return { c with palette := ← Palette.ofValue value }
  | "effect" => .ok { c with effect := value }
  | "effect_params" => do return { c with effectParams := ← value.entries }
  | "vignette" => do return { c with vignette := ← vignetteOf value }
  | "use_uniform_colors" => .ok { c with useUniformColors := value }
  | _ => .error .wrongKind

end ShaderConfig

end ShaderLoom
