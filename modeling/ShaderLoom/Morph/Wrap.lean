/-
  ShaderLoom.Morph.Wrap — a shader made to dissolve.

  The pass declares the morph uniforms, puts the alpha helpers before the entry point and
  multiplies the alpha of every return in it that has one. All else stays as it is, and a shader
  that the pass does not recognise comes back unchanged, with a note that says why.
-/

import ShaderLoom.Morph.Edit
import ShaderLoom.Morph.Site
import ShaderLoom.Number.Reading

namespace ShaderLoom.Morph

inductive Note where
  | alreadyMorphing
  | unbalancedBraces
  | noEntryPoint
  | noReturn
  | applied (returns : Nat)
  deriving DecidableEq

structure Wrapped where
  source : String
  note : Note
  deriving DecidableEq

/-- What to change in a shader. -/
structure Plan where
  /-- One edit for each return that has an alpha. -/
  alphas : List Edit
  insertions : List Edit
  deriving DecidableEq

namespace Note

def text : Note → String
  | alreadyMorphing => "DEBUG: Shader already carries morph uniforms; leaving it unchanged"
  | unbalancedBraces => "WARNING: Morph wrap skipped: unbalanced braces"
  | noEntryPoint => "WARNING: Morph wrap skipped: no recognisable entry point"
  | noReturn => "WARNING: Morph wrap skipped: entry point has no rewritable return"
  | applied n =>
    "DEBUG: Morph wrap applied (" ++ String.ofList (Nat.toDigits 10 n) ++
      " return statements rewritten)"

end Note

/-! ## Alpha -/

/-- The scalar type that an alpha in a vector is cast to. -/
def scalarOf (vector : String) : String := if vector = "half4" then "half" else "float"

def alphaCall (parameter : String) : String :=
  "getMorphAlpha(" ++ parameter ++ ", u_resolution, u_morphProgress, u_morphDirection)"

/-- Whether an argument is one number literal worth exactly one. -/
def isUnit : List Token → Bool
  | [t] =>
    t.kind = .number &&
      Reading.number? (Text.trimEnd Lexeme.isSuffix t.text.toList) == some Binary64.one
  | _ => false

/-- Replaces an alpha by its product with the morph alpha, or by the morph alpha alone. -/
def alphaEdit (source : List Char) (parameter : String) (site : AlphaSite) : Edit :=
  let start := (site.argument.head?.map (·.start)).getD 0
  let stop := (site.argument.getLast?.map (·.stop)).getD 0
  let argument := String.ofList ((source.take stop).drop start)
  let factor := if isUnit site.argument then "" else "(" ++ argument ++ ") * "
  ⟨start, stop, (scalarOf site.vector ++ "(" ++ factor ++ alphaCall parameter ++ ")").toList⟩

/-! ## Declarations -/

/-- The end of the line at an offset when nothing or a line comment follows on it, else the
offset itself. -/
def lineEnd (source : List Char) (offset : Nat) : Nat :=
  let tail := (source.drop offset).takeWhile (· != '\n')
  match Text.trim Text.isBlank tail with
  | [] => offset + tail.length
  | '/' :: '/' :: _ => offset + tail.length
  | _ => offset

/-- The uniforms a shader still lacks. -/
def newUniforms (declared : List String) (d : Dialect) : List String :=
  (if declared.contains "u_resolution" then [] else [d.resolutionUniform]) ++ uniforms

/-- New uniforms go below the last declaration, or right above the helpers when there is none;
the helpers go right before the entry point. -/
def insertions (source : List Char) (entry : Entry) : List Edit :=
  let statements := uniformStatements entry.before
  let added := newUniforms (declaredNames statements) entry.dialect
  let helpers := entry.dialect.helpers ++ "\n"
  match statements.getLast? with
  | some last =>
    [.insertion (lineEnd source last.semicolon.stop) (String.join (added.map ("\n" ++ ·))).toList,
      .insertion entry.returnType.start helpers.toList]
  | none => [.insertion entry.returnType.start (lines added ++ "\n\n" ++ helpers).toList]

/-! ## The pass -/

def plan (source : List Char) (tokens : List Token) : Except Note Plan :=
  if tokens.any (·.text == "u_morphProgress") then .error .alreadyMorphing
  else match braceDepths tokens with
    | none => .error .unbalancedBraces
    | some depths =>
      match findEntry (tokens.zip depths) with
      | none => .error .noEntryPoint
      | some entry =>
        let sites := returns ((blockBody 0 entry.after).getD [])
        if sites.isEmpty then .error .noReturn
        else .ok ⟨sites.map (alphaEdit source entry.parameter), insertions source entry⟩

def wrap (source : String) : Wrapped :=
  match plan source.toList (Token.significant (Token.tokenize source)) with
  | .error note => ⟨source, note⟩
  | .ok p =>
    ⟨String.ofList (Edit.apply source.toList (p.alphas ++ p.insertions)), .applied p.alphas.length⟩

end ShaderLoom.Morph
