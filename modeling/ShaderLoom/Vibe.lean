/-
  ShaderLoom.Vibe — moods, the shaders that suit them and the uniform values they drive.

  Every theme has a group of shaders that is walked round, either by an index of any size
  (`shaderAt`) or from one member to the next (`shaderAfter`).
-/

import ShaderLoom.Color

namespace ShaderLoom

inductive Theme where
  | trust
  | deep
  | passion
  | growth
  | caution
  | alert
  deriving DecidableEq

/-- How busy a shader is. -/
inductive Complexity where
  | smoothie
  | flow
  | ocean
  | storm
  | paisley
  deriving DecidableEq

namespace Theme

def all : List Theme := [trust, deep, passion, growth, caution, alert]

def name : Theme → String
  | trust => "TRUST"
  | deep => "DEEP"
  | passion => "PASSION"
  | growth => "GROWTH"
  | caution => "CAUTION"
  | alert => "ALERT"

def ofName? (s : String) : Option Theme := all.find? (·.name == s)

def ofValue (v : Value) : Except Fault Theme := v.named ofName? (.unknownName · .theme)

/-- The ids of the shaders that suit a theme. -/
def group : Theme → List Nat
  | trust => [0, 5, 7]
  | deep => [4, 13, 17]
  | passion => [2, 10, 16]
  | growth => [7, 11, 18]
  | caution => [8, 14, 15]
  | alert => [9, 12, 3]

def favorite : Theme → Nat
  | trust => 0
  | deep => 13
  | passion => 2
  | growth => 18
  | caution => 14
  | alert => 9

/-- A color with its channels out of 255. -/
def color (red green blue : Nat) : Rgb :=
  let channel (n : Nat) := Binary64.ofRatio false n 255
  ⟨channel red, channel green, channel blue⟩

def primary : Theme → Rgb
  | trust => color 0x25 0x63 0xEB
  | passion => color 0xE1 0x1D 0x48
  | caution => color 0xD9 0x77 0x06
  | growth => color 0x05 0x96 0x69
  | deep => color 0x4C 0x1D 0x95
  | alert => color 0x64 0x74 0x8B

def secondary : Theme → Rgb
  | trust => color 0x08 0x91 0xB2
  | passion => color 0xF4 0x72 0xB6
  | caution => color 0x92 0x40 0x0E
  | growth => color 0x0D 0x94 0x88
  | deep => color 0x8B 0x5C 0xF6
  | alert => color 0x33 0x41 0x55

end Theme

namespace Complexity

def all : List Complexity := [smoothie, flow, ocean, storm, paisley]

def name : Complexity → String
  | smoothie => "SMOOTHIE"
  | flow => "FLOW"
  | ocean => "OCEAN"
  | storm => "STORM"
  | paisley => "PAISLEY"

def ofName? (s : String) : Option Complexity := all.find? (·.name == s)

def ofValue (v : Value) : Except Fault Complexity := v.named ofName? (.unknownName · .complexity)

def level : Complexity → Binary64
  | smoothie => .ofRatio false 1 10
  | flow => .ofRatio false 3 10
  | ocean => .ofRatio false 5 10
  | storm => .ofRatio false 7 10
  | paisley => .ofRatio false 1 1

end Complexity

namespace Vibe

def accent : Rgb := ⟨.ofRatio false 88 100, .ofRatio false 11 100, .ofRatio false 28 100⟩

/-! ## Walking a group -/

/-- The member that a position falls on, going round; an empty group has only shader 0. -/
def member (group : List Nat) (position : Nat) : Nat :=
  (group[position % group.length]?).getD 0

/-- The shader at an index of any sign. -/
def shaderAt (t : Theme) (index : Int) : Nat := member t.group index.natAbs

/-- The shader after one of the group; an id from outside starts the group. -/
def shaderAfter (t : Theme) (id : Int) : Nat :=
  match t.group.findIdx? fun (m : Nat) => (m : Int) == id with
  | some position => member t.group (position + 1)
  | none => member t.group 0

/-- A shader for a theme: at the index when one is given, else the one chosen from the group. -/
def shaderFor (theme index : Value) (choose : List Nat → Option Nat) : Except Fault Nat := do
  let t ← Theme.ofValue theme
  match index with
  | .null => match choose t.group with
    | some id => return id
    | none => throw .noSuchMember
  | .int n => return shaderAt t n
  | .bool b => return shaderAt t (if b then 1 else 0)
  | _ => throw .wrongKind

def nextShader (theme current : Value) : Except Fault Nat := do
  let t ← Theme.ofValue theme
  match current.wholeNumber? with
  | some id => return shaderAfter t id
  | none => return member t.group 0

/-! ## Uniform values -/

/-- The morph uniforms of a shader at rest. -/
def morphAtRest : Entries Value := [
  ("u_morphProgress", .float .zero),
  ("u_morphDirection", .float .one)]

/-- Overrides of uniform values, as numbers; what counts as absent overrides nothing. -/
def overrides (morph : Value) : Except Fault (Entries Value) :=
  if morph.isTrue then
    match morph with
    | .map entries => entries.mapM fun (key, v) => do return (key, .float (← v.toNumber))
    | _ => .error .notAMapping
  else .ok []

/-- The uniform values of a frame. -/
def uniformValues (theme complexity time resolution morph : Value) :
    Except Fault (Entries Value) := do
  let t ← Theme.ofValue theme
  let (width, height) ← resolution.twoParts
  let time ← time.toNumber
  let width ← width.toNumber
  let height ← height.toNumber
  let c ← Complexity.ofValue complexity
  let base : Entries Value := [
    ("u_time", .float time),
    ("u_resolution", .list [.float width, .float height]),
    ("u_complexity", .float c.level),
    ("u_colorA", t.primary.toValue),
    ("u_colorB", t.secondary.toValue),
    ("u_colorC", accent.toValue)] ++ morphAtRest
  let changes ← overrides morph
  return changes.foldl (fun values (key, v) => Entries.put key v values) base

end Vibe

end ShaderLoom
