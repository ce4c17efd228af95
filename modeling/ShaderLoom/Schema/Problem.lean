/-
  ShaderLoom.Schema.Problem — what is wrong with a value, and where.
-/

import ShaderLoom.Value.Display

namespace ShaderLoom

/-- One step from a value to a part of it. -/
inductive PathPart where
  | key (name : String)
  | index (position : Nat)
  deriving DecidableEq

def PathPart.text : PathPart → String
  | .key name => name
  | .index position => intText position

structure Problem where
  /-- What is wrong, in words; nothing where the words would show a value that cannot be written
  out. -/
  message : Option String
  path : List PathPart
  deriving DecidableEq

namespace Problem

/-- A problem of a part, told of the whole. -/
def under (part : PathPart) (p : Problem) : Problem := { p with path := part :: p.path }

def pathTexts (p : Problem) : List String := p.path.map PathPart.text

/-- Paths come in the order of their texts, part by part, a path before its extensions. -/
def pathLe : List String → List String → Bool
  | [], _ => true
  | _ :: _, [] => false
  | a :: as, b :: bs => if a = b then pathLe as bs else decide (a < b)

def inPathOrder (problems : List Problem) : List Problem :=
  problems.mergeSort fun p q => pathLe p.pathTexts q.pathTexts

end Problem

end ShaderLoom
