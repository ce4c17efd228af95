/-
  ShaderLoom.Text.Fragment — pieces of source text set apart by empty lines.
-/

namespace ShaderLoom

/-- Pieces one after another with an empty line between them. -/
def fragments (pieces : List String) : String := "\n\n".intercalate pieces

/-- A piece with a line end before and after it, ready to stand beside others. -/
def setApart (piece : String) : String := "\n" ++ piece ++ "\n"

def lines (l : List String) : String := "\n".intercalate l

end ShaderLoom
