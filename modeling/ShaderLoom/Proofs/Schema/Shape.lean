/-
  ShaderLoom.Proofs.Schema.Shape — what a shader configuration must look like.

  The schema is written in rules that each pass over the kinds of value they do not speak of. Here
  the same is said directly: which fields there are, and what each of them is (`Config`). Numbers
  are placed on the extended line; a nan lies nowhere, so it is below or above no bound.
-/

import ShaderLoom.Kind
import ShaderLoom.Value.Basic

namespace ShaderLoom.Shape

/-! ## Numbers -/

/-- Truth values are no numbers. -/
inductive IsNumber : Value → Prop
  | int (n : Int) : IsNumber (.int n)
  | float (x : Binary64) : IsNumber (.float x)

def Below (v : Value) (n : Int) : Prop := ∃ e, v.extent? = some e ∧ e.lt (.ofInt n) = true

def Above (v : Value) (n : Int) : Prop := ∃ e, v.extent? = some e ∧ (Extent.ofInt n).lt e = true

def LiesAt (v : Value) (n : Int) : Prop := v.extent? = some (.ofInt n)

/-- A number that is whole and not negative. -/
def IsId (v : Value) : Prop := IsNumber v ∧ ∃ n : Nat, LiesAt v n

structure Channel (v : Value) : Prop where
  number : IsNumber v
  least : ¬Below v 0
  greatest : ¬Above v 1

structure Scale (v : Value) : Prop where
  number : IsNumber v
  positive : ¬(Below v 0 ∨ LiesAt v 0)

/-! ## Texts -/

def IsText (v : Value) : Prop := ∃ s, v = .str s

/-- A text of the given characters, with at most one line end behind them. -/
def Spells (s : String) (cs : List Char) : Prop := s.toList = cs ∨ s.toList = cs ++ ['\n']

def HexDigit (c : Char) : Prop := '0' ≤ c ∧ c ≤ '9' ∨ 'A' ≤ c ∧ c ≤ 'F' ∨ 'a' ≤ c ∧ c ≤ 'f'

def HexColor (s : String) : Prop :=
  ∃ digits, digits.length = 6 ∧ (∀ c ∈ digits, HexDigit c) ∧ Spells s ('#' :: digits)

def NameStart (c : Char) : Prop := 'A' ≤ c ∧ c ≤ 'Z' ∨ 'a' ≤ c ∧ c ≤ 'z' ∨ c = '_'

def NamePart (c : Char) : Prop := NameStart c ∨ '0' ≤ c ∧ c ≤ '9'

def Identifier (s : String) : Prop :=
  ∃ c cs, NameStart c ∧ (∀ d ∈ cs, NamePart d) ∧ Spells s (c :: cs)

/-! ## Mappings -/

def Mapping (P : Entries Value → Prop) (v : Value) : Prop := ∃ entries, v = .map entries ∧ P entries

/-- No keys but the given ones. -/
def Only (keys : List String) (entries : Entries Value) : Prop := ∀ key ∈ Entries.keys entries, key ∈ keys

def Has (key : String) (P : Value → Prop) (entries : Entries Value) : Prop :=
  ∃ v, Entries.get? key entries = some v ∧ P v

def MayHave (key : String) (P : Value → Prop) (entries : Entries Value) : Prop :=
  ∀ v, Entries.get? key entries = some v → P v

def Each (P : String → Value → Prop) (entries : Entries Value) : Prop := ∀ key v, (key, v) ∈ entries → P key v

/-! ## Blocks of a configuration -/

structure Time (entries : Entries Value) : Prop where
  only : Only ["scale", "offset"] entries
  scale : Has "scale" Scale entries
  offset : MayHave "offset" IsNumber entries

def Color (v : Value) : Prop := ∃ r g b, v = .list [r, g, b] ∧ Channel r ∧ Channel g ∧ Channel b

def Colors : Entries Value → Prop := Each fun name v => Identifier name ∧ Color v

structure Palette (entries : Entries Value) : Prop where
  only : Only ["colors"] entries
  colors : MayHave "colors" (Mapping Colors) entries

inductive IsParameter : Value → Prop
  | number {v : Value} (h : IsNumber v) : IsParameter v
  | truth (b : Bool) : IsParameter (.bool b)
  | text (s : String) : IsParameter (.str s)

def Vignette (v : Value) : Prop := v = .null ∨ Mapping (Each fun _ => IsNumber) v

def configKeys : List String := [
  "id", "name", "description", "fallback_color", "noise", "time", "palette", "effect",
  "effect_params", "vignette", "use_uniform_colors"]

structure Config (entries : Entries Value) : Prop where
  only : Only configKeys entries
  id : Has "id" IsId entries
  name : Has "name" (fun v => ∃ s, v = .str s ∧ s ≠ "") entries
  description : MayHave "description" IsText entries
  fallbackColor : MayHave "fallback_color" (fun v => ∃ s, v = .str s ∧ HexColor s) entries
  noise : Has "noise" (fun v => ∃ kind : NoiseKind, v = .str kind.tag) entries
  time : Has "time" (Mapping Time) entries
  palette : Has "palette" (Mapping Palette) entries
  effect : Has "effect" (fun v => ∃ kind : EffectKind, v = .str kind.tag) entries
  effectParams : MayHave "effect_params" (Mapping (Each fun _ => IsParameter)) entries
  vignette : MayHave "vignette" Vignette entries
  useUniformColors : MayHave "use_uniform_colors" (fun v => ∃ b, v = .bool b) entries

end ShaderLoom.Shape
