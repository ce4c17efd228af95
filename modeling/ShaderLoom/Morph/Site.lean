/-
  ShaderLoom.Morph.Site — where a shader can be given its morph.

  Over the significant tokens of a shader: the brace depth before each (`braceDepths`), the
  entry point at file scope (`findEntry`), the returns inside it whose last argument is the
  alpha (`returns`), and the uniform declarations before it (`uniformStatements`).
-/

import ShaderLoom.Morph.Declarations

namespace ShaderLoom.Morph

def vectorTypes : List String := ["half4", "float4", "vec4"]

def pairTypes : List String := ["float2", "vec2"]

/-! ## Braces -/

/-- The brace depth before each token, from a depth on; none when a closing brace has no opening
one or an opening one is left open. -/
def depthsFrom (depth : Nat) : List Token → Option (List Nat)
  | [] => if depth = 0 then some [] else none
  | t :: rest =>
    if t.text = "\x7b" then (depthsFrom (depth + 1) rest).map (depth :: ·)
    else if t.text = "\x7d" then
      match depth with
      | 0 => none
      | d + 1 => (depthsFrom d rest).map (depth :: ·)
    else (depthsFrom depth rest).map (depth :: ·)

def braceDepths (tokens : List Token) : Option (List Nat) := depthsFrom 0 tokens

/-- The tokens before the brace that closes an open block with `extra` more blocks open in it. -/
def blockBody (extra : Nat) : List Token → Option (List Token)
  | [] => none
  | t :: rest =>
    if t.text = "\x7b" then (blockBody (extra + 1) rest).map (t :: ·)
    else if t.text = "\x7d" then
      match extra with
      | 0 => some []
      | e + 1 => (blockBody e rest).map (t :: ·)
    else (blockBody extra rest).map (t :: ·)

/-! ## The entry point -/

/-- A token with the brace depth before it. -/
abbrev Placed := Token × Nat

structure Entry where
  /-- The tokens before the return type. -/
  before : List Placed
  returnType : Token
  parameter : String
  dialect : Dialect
  /-- The tokens after the brace that opens the body. -/
  after : List Token
  deriving DecidableEq

/-- Reads `T main(P name) {` off the start of a row of tokens. -/
def entryAt? : List Placed → Option Entry
  | (ret, 0) :: (main, _) :: (opening, _) :: (type, _) :: (name, _) :: (closing, _) :: (brace, _)
      :: after =>
    if vectorTypes.contains ret.text ∧ main.text = "main" ∧ opening.text = "(" ∧
        pairTypes.contains type.text ∧ name.kind = .name ∧ closing.text = ")" ∧
        brace.text = "\x7b" then
      let dialect := if ret.text = "vec4" ∨ type.text = "vec2" then Dialect.vec else .float
      some ⟨[], ret, name.text, dialect, after.map (·.1)⟩
    else none
  | _ => none

/-- The first entry point at file scope. -/
def findEntry : List Placed → Option Entry
  | [] => none
  | t :: rest =>
    match entryAt? (t :: rest) with
    | some entry => some entry
    | none => (findEntry rest).map fun entry => { entry with before := t :: entry.before }

/-! ## Returns -/

def opensBracket (t : Token) : Bool := t.text == "(" || t.text == "["

def closesBracket (t : Token) : Bool := t.text == ")" || t.text == "]"

/-- The tokens inside an open bracket with `extra` more open in it, and those after the one
that closes it. -/
def bracketed (extra : Nat) : List Token → Option (List Token × List Token)
  | [] => none
  | t :: rest =>
    if opensBracket t then (bracketed (extra + 1) rest).map fun (a, b) => (t :: a, b)
    else if closesBracket t then
      match extra with
      | 0 => some ([], rest)
      | e + 1 => (bracketed e rest).map fun (a, b) => (t :: a, b)
    else (bracketed extra rest).map fun (a, b) => (t :: a, b)

/-- The tokens after the last comma that lies in no bracket, with `depth` brackets open. -/
def afterLastComma (depth : Nat) : List Token → Option (List Token)
  | [] => none
  | t :: rest =>
    let inside := if opensBracket t then depth + 1 else if closesBracket t then depth - 1 else depth
    match afterLastComma inside rest with
    | some last => some last
    | none => if t.text = "," ∧ depth = 0 then some rest else none

theorem bracketed_rest_length {extra : Nat} {tokens inside rest : List Token}
    (h : bracketed extra tokens = some (inside, rest)) : rest.length < tokens.length := by
  induction tokens generalizing extra inside with
  | nil => simp [bracketed] at h
  | cons t ts ih =>
    have step : ∀ e, (bracketed e ts).map (fun (a, b) => (t :: a, b)) = some (inside, rest) →
        rest.length < (t :: ts).length := by
      intro e he
      obtain ⟨⟨a, b⟩, hb, hab⟩ := Option.map_eq_some_iff.mp he
      obtain ⟨-, rfl⟩ := Prod.mk.inj hab
      exact Nat.lt_succ_of_lt (ih hb)
    simp only [bracketed] at h
    split at h
    · exact step _ h
    · split at h
      · split at h
        · obtain ⟨-, rfl⟩ := Prod.mk.inj (Option.some.inj h)
          exact Nat.lt_succ_self _
        · exact step _ h
      · exact step _ h

/-- A returned vector whose last argument is an alpha to multiply. -/
structure AlphaSite where
  vector : String
  argument : List Token
  deriving DecidableEq

/-- A call has an alpha when it has a comma, tokens after the last one, and a semicolon
directly behind it. -/
def alphaSite? (vector : String) (inside after : List Token) : Option AlphaSite :=
  match afterLastComma 0 inside, after with
  | some (t :: argument), semicolon :: _ =>
    if semicolon.text = ";" then some ⟨vector, t :: argument⟩ else none
  | _, _ => none

/-- The returns of a body that have an alpha, up to a call that is never closed. -/
def returns : List Token → List AlphaSite
  | ret :: vector :: opening :: rest =>
    if ret.text = "return" ∧ vectorTypes.contains vector.text ∧ opening.text = "(" then
      match _ : bracketed 0 rest with
      | none => []
      | some (inside, after) => (alphaSite? vector.text inside after).toList ++ returns after
    else returns (vector :: opening :: rest)
  | _ => []
termination_by tokens => tokens.length
decreasing_by
  · have := bracketed_rest_length ‹_›
    simp only [List.length_cons]; omega
  · simp only [List.length_cons]; omega

/-! ## Uniform declarations -/

/-- A declaration at file scope: its tokens and the semicolon that ends it. -/
structure UniformStatement where
  tokens : List Token
  semicolon : Token
  deriving DecidableEq

/-- The uniform declarations at file scope. `reading` holds the tokens of the one being read,
the last one first. -/
def uniformStatementsFrom (reading : Option (List Token)) : List Placed → List UniformStatement
  | [] => []
  | (t, depth) :: rest =>
    match reading with
    | some tokens =>
      if t.text = ";" then ⟨tokens.reverse, t⟩ :: uniformStatementsFrom none rest
      else uniformStatementsFrom (some (t :: tokens)) rest
    | none => uniformStatementsFrom (if depth = 0 ∧ t.text = "uniform" then some [t] else none) rest

def uniformStatements (before : List Placed) : List UniformStatement :=
  uniformStatementsFrom none before

def declaredNames (statements : List UniformStatement) : List String :=
  statements.flatMap fun s => (s.tokens.filter (·.kind = .name)).map (·.text)

end ShaderLoom.Morph
