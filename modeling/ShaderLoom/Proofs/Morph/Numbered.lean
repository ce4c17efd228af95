/-
  ShaderLoom.Proofs.Morph.Numbered — the pass over token numbers, with every access checked.

  The pass can be made by loops over the numbers of tokens. Then something may go wrong at each
  access: a number past the last token, a block that no brace closes, a vector without a scalar.
  Here each of these is an error (`Mishap`), and each loop ends since its number grows
  (`callFrom_bounds`, `semicolonFrom_le`). That no error ever comes up is shown in
  `Proofs.Morph.Loops`.
-/

import ShaderLoom.Proofs.Morph.Plan

namespace ShaderLoom.Morph

open ShaderLoom.Token

inductive Mishap where
  | outOfRange
  | unclosedBlock
  | unknownVector
  deriving DecidableEq

namespace Numbered

/-! ## Loops -/

def fetch {α : Type} (l : List α) (i : Nat) : Except Mishap α :=
  match l[i]? with
  | some a => .ok a
  | none => .error .outOfRange

/-- From one number up to another; never out of range. -/
def slice {α : Type} (l : List α) (start stop : Nat) : List α := (l.take stop).drop start

/-- The entry point: the number of its return type, its parameter and dialect. -/
def entryFrom (tokens : List Token) (depths : List Nat) (i : Nat) :
    Except Mishap (Option (Nat × String × Dialect)) :=
  if i + 6 < tokens.length then do
    let depth ← fetch depths i
    let ret ← fetch tokens i
    if depth = 0 ∧ vectorTypes.contains ret.text then
      let window := slice tokens (i + 1) (i + 7)
      let main ← fetch window 0
      let opening ← fetch window 1
      let type ← fetch window 2
      let name ← fetch window 3
      let closing ← fetch window 4
      let brace ← fetch window 5
      if main.text = "main" ∧ opening.text = "(" ∧ pairTypes.contains type.text ∧ name.kind = .name ∧
          closing.text = ")" ∧ brace.text = "\x7b" then
        return some (i, name.text, if ret.text = "vec4" ∨ type.text = "vec2" then .vec else .float)
      else entryFrom tokens depths (i + 1)
    else entryFrom tokens depths (i + 1)
  else return none
termination_by tokens.length - i

/-- The number of the brace that closes a block, with `depth` blocks open before `i`. -/
def matchFrom (tokens : List Token) (depth : Int) (i : Nat) : Except Mishap Nat :=
  if i < tokens.length then do
    let t ← fetch tokens i
    if t.text = "\x7b" then matchFrom tokens (depth + 1) (i + 1)
    else if t.text = "\x7d" then
      if depth - 1 = 0 then return i else matchFrom tokens (depth - 1) (i + 1)
    else matchFrom tokens depth (i + 1)
  else .error .unclosedBlock
termination_by tokens.length - i

/-- The number of the bracket that closes a call before `stop`, and of the last comma in the call. -/
def callFrom (tokens : List Token) (stop : Nat) (depth : Int) (comma : Option Nat) (i : Nat) :
    Except Mishap (Option (Nat × Option Nat)) :=
  if i < stop then do
    let t ← fetch tokens i
    if opensBracket t then callFrom tokens stop (depth + 1) comma (i + 1)
    else if closesBracket t then
      if depth - 1 = 0 then return some (i, comma) else callFrom tokens stop (depth - 1) comma (i + 1)
    else if t.text = "," ∧ depth = 1 then callFrom tokens stop depth (some i) (i + 1)
    else callFrom tokens stop depth comma (i + 1)
  else return none
termination_by stop - i

/-- The scalar types by vector type. -/
def scalars : List (String × String) := [("half4", "half"), ("float4", "float"), ("vec4", "float")]

def scalarAt (vector : String) : Except Mishap String :=
  match scalars.lookup vector with
  | some scalar => .ok scalar
  | none => .error .unknownVector

/-- The edit for a call that ends at `close`, if it has an alpha. -/
def editAt (source : List Char) (parameter : String) (tokens : List Token) (stop : Nat) (vector : Token)
    (close : Nat) (comma : Option Nat) : Except Mishap (Option Edit) :=
  match comma with
  | none => return none
  | some comma =>
    if stop ≤ close + 1 then return none
    else do
      let semicolon ← fetch tokens (close + 1)
      if semicolon.text ≠ ";" then return none
      else
        let argument := slice tokens (comma + 1) close
        if argument = [] then return none
        else
          let scalar ← scalarAt vector.text
          let first ← fetch argument 0
          let last ← fetch argument (argument.length - 1)
          let text := String.ofList ((source.take last.stop).drop first.start)
          let factor := if isUnit argument then "" else "(" ++ text ++ ") * "
          return some ⟨first.start, last.stop,
            (scalar ++ "(" ++ factor ++ alphaCall parameter ++ ")").toList⟩

/-- A call ends where or behind where it is looked for. -/
theorem callFrom_bounds {tokens : List Token} {stop i close : Nat} {depth : Int} {comma comma' : Option Nat}
    (h : callFrom tokens stop depth comma i = .ok (some (close, comma'))) : i ≤ close ∧ close < stop := by
  induction hn : stop - i using Nat.strongRecOn generalizing i depth comma with
  | ind n ih =>
    unfold callFrom at h
    split at h
    · rename_i hi
      have hrest : ∀ {d c}, callFrom tokens stop d c (i + 1) = .ok (some (close, comma')) →
          i ≤ close ∧ close < stop := by
        intro d c hrest
        have := ih (stop - (i + 1)) (by omega) hrest rfl
        omega
      cases ht : fetch tokens i with
      | error e =>
        rw [ht] at h
        cases h
      | ok t =>
        rw [ht] at h
        simp only [bind, Except.bind, pure, Except.pure] at h
        split at h
        · exact hrest h
        · split at h
          · split at h
            · obtain ⟨rfl, -⟩ := Prod.mk.inj (Option.some.inj (Except.ok.inj h))
              exact ⟨Nat.le_refl _, hi⟩
            · exact hrest h
          · split at h
            · exact hrest h
            · exact hrest h
    · cases h

/-- The edits for the returns before `stop`, from the token `i` on. -/
def editsFrom (source : List Char) (parameter : String) (tokens : List Token) (stop i : Nat) :
    Except Mishap (List Edit) :=
  if i + 2 < stop then do
    let ret ← fetch tokens i
    let vector ← fetch tokens (i + 1)
    let opening ← fetch tokens (i + 2)
    if ret.text = "return" ∧ vectorTypes.contains vector.text ∧ opening.text = "(" then
      match _ : callFrom tokens stop 0 none (i + 2) with
      | .error mishap => .error mishap
      | .ok none => return []
      | .ok (some (close, comma)) => do
        let edit ← editAt source parameter tokens stop vector close comma
        let rest ← editsFrom source parameter tokens stop close
        return edit.toList ++ rest
    else editsFrom source parameter tokens stop (i + 1)
  else return []
termination_by stop - i
decreasing_by
  · have := callFrom_bounds ‹_›
    omega
  · omega

/-- The number of the next semicolon before `stop`, or `stop`. -/
def semicolonFrom (tokens : List Token) (stop i : Nat) : Except Mishap Nat :=
  if i < stop then do
    let t ← fetch tokens i
    if t.text = ";" then return i else semicolonFrom tokens stop (i + 1)
  else return i
termination_by stop - i

theorem semicolonFrom_le {tokens : List Token} {stop i last : Nat}
    (h : semicolonFrom tokens stop i = .ok last) :
    i ≤ last := by
  induction hn : stop - i using Nat.strongRecOn generalizing i with
  | ind n ih =>
    unfold semicolonFrom at h
    split at h
    · cases ht : fetch tokens i with
      | error e =>
        rw [ht] at h
        cases h
      | ok t =>
        rw [ht] at h
        simp only [bind, Except.bind, pure, Except.pure] at h
        split at h
        · exact Nat.le_of_eq (Except.ok.inj h)
        · have := ih (stop - (i + 1)) (by omega) h rfl
          omega
    · exact Nat.le_of_eq (Except.ok.inj h)

/-- The uniform declarations before `stop`: the numbers of the first token and the semicolon. -/
def statementsFrom (tokens : List Token) (depths : List Nat) (stop i : Nat) :
    Except Mishap (List (Nat × Nat)) :=
  if i < stop then do
    let depth ← fetch depths i
    let t ← fetch tokens i
    if depth = 0 ∧ t.text = "uniform" then
      match _ : semicolonFrom tokens stop i with
      | .error mishap => .error mishap
      | .ok last =>
        if stop ≤ last then return []
        else do
          let rest ← statementsFrom tokens depths stop (last + 1)
          return (i, last) :: rest
    else statementsFrom tokens depths stop (i + 1)
  else return []
termination_by stop - i
decreasing_by
  · have := semicolonFrom_le ‹_›
    omega
  · omega

/-- The insertions before the entry point that starts at the token `index`. -/
def insertionsAt (source : List Char) (tokens : List Token) (depths : List Nat) (index : Nat) (d : Dialect) :
    Except Mishap (List Edit) := do
  let statements ← statementsFrom tokens depths index 0
  let declared := statements.flatMap fun p => ((slice tokens p.1 p.2).filter (·.kind = .name)).map (·.text)
  let added := newUniforms declared d
  let helpers := d.helpers ++ "\n"
  let ret ← fetch tokens index
  match statements.getLast? with
  | some p => do
    let semicolon ← fetch tokens p.2
    return [.insertion (lineEnd source semicolon.stop) (String.join (added.map ("\n" ++ ·))).toList,
      .insertion ret.start helpers.toList]
  | none => return [.insertion ret.start (lines added ++ "\n\n" ++ helpers).toList]

end Numbered

/-- The pass by numbers. -/
def numberedWrap (source : String) : Except Mishap Wrapped :=
  let tokens := significant (tokenize source)
  if tokens.any (·.text == "u_morphProgress") then return ⟨source, .alreadyMorphing⟩
  else match braceDepths tokens with
    | none => return ⟨source, .unbalancedBraces⟩
    | some depths => do
      match ← Numbered.entryFrom tokens depths 0 with
      | none => return ⟨source, .noEntryPoint⟩
      | some (index, parameter, dialect) =>
        let close ← Numbered.matchFrom tokens 0 (index + 6)
        let alphas ← Numbered.editsFrom source.toList parameter tokens close (index + 7)
        if alphas.isEmpty then return ⟨source, .noReturn⟩
        else
          let added ← Numbered.insertionsAt source.toList tokens depths index dialect
          return ⟨String.ofList (Edit.apply source.toList (alphas ++ added)), .applied alphas.length⟩

end ShaderLoom.Morph
