/-
  ShaderLoom.Morph.Edit — replacements in a text, by offsets of the text as it was.

  Edits are made from the last start to the first, so the offsets of those still to make stay
  true. Of edits with one start the later in the list ends up in front.
-/

namespace ShaderLoom

structure Edit where
  start : Nat
  stop : Nat
  text : List Char
  deriving DecidableEq

namespace Edit

def insertion (offset : Nat) (text : List Char) : Edit := ⟨offset, offset, text⟩

def make (source : List Char) (e : Edit) : List Char :=
  source.take e.start ++ e.text ++ source.drop e.stop

def lastFirst (edits : List Edit) : List Edit :=
  edits.mergeSort fun a b => decide (b.start ≤ a.start)

def apply (source : List Char) (edits : List Edit) : List Char :=
  (lastFirst edits).foldl make source

end Edit

end ShaderLoom
