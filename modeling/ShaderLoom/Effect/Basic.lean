/-
  ShaderLoom.Effect.Basic — what an effect adds to a shader.

  `helpers` are functions at file scope, put before the entry point. `main` stands inside it,
  where `uv`, `aspect` and `time` are set up, and leaves a color of three components in `color`.
  In the texts of effects an opening brace is written `\x7b` and a closing one `\x7d`.
-/

import ShaderLoom.Text.Fragment

namespace ShaderLoom

structure Effect where
  helpers : String
  main : String
  /-- Whether the helpers call on turbulence. -/
  turbulent : Bool := false

end ShaderLoom
