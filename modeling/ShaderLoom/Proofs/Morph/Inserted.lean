/-
  ShaderLoom.Proofs.Morph.Inserted — the texts that the pass puts into a shader, as lexemes.

  Each of them is sealed, so that what stands behind it cannot change it, and inert, so that it
  closes no comment that was open: the declarations, the helpers in both spellings, and the call of
  the alpha function with the parameter of the entry point in it. They are fixed texts, so this is
  found out by reading them (`isSealed`).
-/

import ShaderLoom.Proofs.Lexeme.Significant
import ShaderLoom.Proofs.Morph.Heading
import ShaderLoom.Proofs.Token.Layout
import ShaderLoom.Morph.Wrap

namespace ShaderLoom.Morph

open ShaderLoom.Lexeme ShaderLoom.Text

def mark (c : Char) : Lexeme := (.mark, [c])

def name (s : String) : Lexeme := (.name, s.toList)

/-- Whether a text ends with a barrier that is a token of its own, also before the end of a
comment. -/
def isSealed (cs : List Char) : Bool :=
  match cs.getLast? with
  | none => false
  | some b =>
    isBarrier b && (isPlain b || isBlank b) &&
      (Token.scan 0 0 (cs ++ ['*', '/'])).any fun t => t.start + 1 == cs.length

/-- The tokens before that one are a row that spells what comes before the barrier. -/
theorem row_of_isSealed {cs : List Char} (h : isSealed cs = true) :
    ∃ xs b, cs = joined xs ++ [b] ∧ isBarrier b = true ∧ (isPlain b = true ∨ isBlank b = true) ∧
      Row xs [b, '*', '/'] := by
  unfold isSealed at h
  split at h
  · cases h
  · rename_i b hb
    simp only [Bool.and_eq_true, Bool.or_eq_true, List.any_eq_true, beq_iff_eq] at h
    obtain ⟨⟨hbar, hkind⟩, t, ht, hstart⟩ := h
    obtain ⟨u, rfl⟩ := List.getLast?_eq_some_iff.mp hb
    obtain ⟨ts, us, hcut⟩ := List.append_of_mem ht
    have hlaid := Token.scan_laid 0 (u ++ [b] ++ ['*', '/'])
    rw [hcut] at hlaid
    have hlex : lexemes (u ++ [b] ++ ['*', '/']) = ts.map Token.lexeme ++ (t :: us).map Token.lexeme := by
      rw [lexemes, hcut, List.map_append]
    have htext := joined_lexemes (u ++ [b] ++ ['*', '/'])
    rw [hlex, joined_append, List.append_assoc] at htext
    have hlen : (joined (ts.map Token.lexeme)).length = u.length := by
      have := hlaid.place.1
      rw [Token.joined_map_lexeme]
      simp only [List.length_append, List.length_singleton] at hstart
      omega
    obtain ⟨hu, hrest⟩ := List.append_inj htext hlen
    have hrow := (row_of_lexemes hlex).1
    rw [hrest] at hrow
    exact ⟨_, b, by rw [hu], hbar, hkind, hrow⟩

theorem sealed_of_isSealed {cs : List Char} (h : isSealed cs = true) : Sealed cs := by
  obtain ⟨xs, b, rfl, hbar, hkind, hrow⟩ := row_of_isSealed h
  exact sealed_of_row hbar (hkind.elim sealed_plain sealed_blank) hrow

/-- A fixed text, by its characters. -/
theorem significant_text (text : String) (xs : List Lexeme)
    (h : ∃ cs, text.toList = cs ∧ isSealed cs = true ∧ significant cs = xs) (v : List Char) :
    significant (text.toList ++ v) = xs ++ significant v := by
  obtain ⟨cs, rfl, hseal, rfl⟩ := h
  exact sealed_of_isSealed hseal v

/-! ## The alpha call -/

/-- The lexemes of `getMorphAlpha(parameter, u_resolution, u_morphProgress, u_morphDirection)`. -/
def callLexemes (parameter : String) : List Lexeme :=
  [name "getMorphAlpha", mark '(', name parameter, mark ',', name "u_resolution", mark ',',
    name "u_morphProgress", mark ',', name "u_morphDirection", mark ')']

theorem significant_alphaCall {parameter : String} (h : IsName parameter.toList) (v : List Char) :
    significant ((alphaCall parameter).toList ++ v) = callLexemes parameter ++ significant v := by
  have hopening := significant_text "getMorphAlpha(" [name "getMorphAlpha", mark '(']
    ⟨_, String.toList_ofList, by decide⟩
  have hclosing := significant_text ", u_resolution, u_morphProgress, u_morphDirection)"
    [mark ',', name "u_resolution", mark ',', name "u_morphProgress", mark ',',
      name "u_morphDirection", mark ')']
    ⟨_, String.toList_ofList, by decide⟩
  have hcomma : ∃ cs, ", u_resolution, u_morphProgress, u_morphDirection)".toList = ',' :: cs :=
      ⟨_, String.toList_ofList⟩
  unfold alphaCall
  rw [String.toList_append, String.toList_append]
  generalize "getMorphAlpha(".toList = opening at hopening ⊢
  generalize ", u_resolution, u_morphProgress, u_morphDirection)".toList = closing at hclosing hcomma ⊢
  have hword : startsWith isWord (closing ++ v) = false := by
    obtain ⟨cs, rfl⟩ := hcomma
    exact (by decide : isWord ',' = false)
  rw [List.append_assoc, List.append_assoc, hopening, significant_name h hword, hclosing]
  rfl

theorem inert_alphaCall {parameter : String} (h : IsName parameter.toList) :
    Inert (alphaCall parameter).toList := by
  have hfixed : ∀ {text : String}, (∃ cs, text.toList = cs ∧ blockEnd? (cs ++ ['/']) = none) →
      Inert text.toList := by
    intro text h
    obtain ⟨cs, rfl, htest⟩ := h
    exact inert_of_test htest
  have hname : Inert parameter.toList := by
    refine inert_of_no_star fun hc => ?_
    cases hp : parameter.toList with
    | nil => rw [hp] at hc; cases hc
    | cons d t =>
      rw [hp] at h hc
      rcases List.mem_cons.mp hc with rfl | hc
      · exact absurd h.1 (by decide)
      · exact absurd (h.2 _ hc) (by decide)
  unfold alphaCall
  rw [String.toList_append, String.toList_append]
  exact ((hfixed ⟨_, String.toList_ofList, by decide⟩).append hname).append
    (hfixed ⟨_, String.toList_ofList, by decide⟩)

/-! ## Declarations -/

/-- Sealed and inert, by reading the text. -/
def isHarmless (cs : List Char) : Bool := isSealed cs && blockEnd? (cs ++ ['/']) == none

theorem sealed_of_isHarmless {cs : List Char} (h : isHarmless cs = true) : Sealed cs :=
  sealed_of_isSealed (Bool.and_eq_true_iff.mp h).1

theorem inert_of_isHarmless {cs : List Char} (h : isHarmless cs = true) : Inert cs :=
  inert_of_test (by simpa using (Bool.and_eq_true_iff.mp h).2)

/-- The uniforms that a shader may lack: all but the resolution, or all of one dialect. -/
def uniformChoices : List (List String) :=
  [uniforms, Dialect.float.resolutionUniform :: uniforms, Dialect.vec.resolutionUniform :: uniforms]

theorem newUniforms_mem (declared : List String) (d : Dialect) : newUniforms declared d ∈ uniformChoices := by
  unfold newUniforms uniformChoices
  split <;> cases d <;> simp

theorem harmless_of_mem_newUniforms {declared : List String} {d : Dialect} {line : String}
    (h : line ∈ newUniforms declared d) : isHarmless line.toList = true := by
  have hall : ∀ ls ∈ uniformChoices, ∀ l ∈ ls, isHarmless l.toList = true := by decide
  exact hall _ (newUniforms_mem declared d) line h

/-- The lexemes of the uniforms that a shader lacks. -/
def uniformLexemes (declared : List String) (d : Dialect) : List Lexeme :=
  (newUniforms declared d).flatMap fun line => significant line.toList

/-- The declarations below another one: each on a line of its own. -/
theorem significant_below {ls : List String} (h : ∀ l ∈ ls, Sealed l.toList) (v : List Char) :
    significant ((String.join (ls.map ("\n" ++ ·))).toList ++ v) =
      (ls.flatMap fun l => significant l.toList) ++ significant v := by
  rw [String.toList_join, List.flatMap_map]
  induction ls with
  | nil => rfl
  | cons l ls ih =>
    have hrest := ih fun k hk => h k (by simp [hk])
    have hline : ("\n" ++ l).toList = '\n' :: l.toList := String.toList_append
    rw [List.flatMap_cons, List.flatMap_cons, List.append_assoc, hline, List.cons_append,
      significant_blank (by decide), h l (by simp), hrest, List.append_assoc]

theorem inert_below {ls : List String} (h : ∀ l ∈ ls, Inert l.toList) :
    Inert (String.join (ls.map ("\n" ++ ·))).toList := by
  rw [String.toList_join, List.flatMap_map]
  induction ls with
  | nil => exact inert_nil
  | cons l ls ih =>
    have hline : ("\n" ++ l).toList = '\n' :: l.toList := String.toList_append
    rw [List.flatMap_cons, hline]
    exact ((inert_of_no_star (u := ['\n']) (by decide)).append (h l (by simp))).append
      (ih fun k hk => h k (by simp [hk]))

theorem lines_cons_cons (l m : String) (ls : List String) :
    (lines (l :: m :: ls)).toList = l.toList ++ '\n' :: (lines (m :: ls)).toList := by
  rw [lines, String.intercalate_cons_cons, String.toList_append, String.toList_append, List.append_assoc]
  rfl

theorem significant_lines {ls : List String} (h : ∀ l ∈ ls, Sealed l.toList) (v : List Char) :
    significant ((lines ls).toList ++ v) = (ls.flatMap fun l => significant l.toList) ++ significant v := by
  induction ls with
  | nil => rfl
  | cons l ls ih =>
    have hrest := ih fun k hk => h k (by simp [hk])
    have hl := h l (by simp)
    cases ls with
    | nil => simpa [lines] using hl v
    | cons m ls =>
      rw [lines_cons_cons, List.append_assoc, hl, List.cons_append, significant_blank (by decide), hrest]
      simp only [List.flatMap_cons, List.append_assoc]

theorem inert_lines {ls : List String} (h : ∀ l ∈ ls, Inert l.toList) : Inert (lines ls).toList := by
  induction ls with
  | nil => exact inert_nil
  | cons l ls ih =>
    have hrest := ih fun k hk => h k (by simp [hk])
    have hl := h l (by simp)
    cases ls with
    | nil => simpa [lines] using hl
    | cons m ls =>
      rw [lines_cons_cons, List.append_cons]
      exact (hl.append (inert_of_no_star (by decide))).append hrest

/-- Neither order of lines and line ends leaves a trace of the line ends. -/
theorem significant_declarations (declared : List String) (d : Dialect) (v : List Char) :
    significant ((lines (newUniforms declared d) ++ "\n\n").toList ++ v) = uniformLexemes declared d ++ significant v ∧
      significant ((String.join ((newUniforms declared d).map ("\n" ++ ·))).toList ++ v) =
        uniformLexemes declared d ++ significant v := by
  have hsealed : ∀ l ∈ newUniforms declared d, Sealed l.toList := fun l hl =>
    sealed_of_isHarmless (harmless_of_mem_newUniforms hl)
  refine ⟨?_, significant_below hsealed v⟩
  rw [String.toList_append, List.append_assoc, significant_lines hsealed]
  exact congrArg _ (significant_blanks (List.all_eq_true.mp (by decide : ['\n', '\n'].all isBlank = true)) v)

theorem inert_declarations (declared : List String) (d : Dialect) :
    Inert (lines (newUniforms declared d) ++ "\n\n").toList ∧
      Inert (String.join ((newUniforms declared d).map ("\n" ++ ·))).toList := by
  have hinert : ∀ l ∈ newUniforms declared d, Inert l.toList := fun l hl =>
    inert_of_isHarmless (harmless_of_mem_newUniforms hl)
  refine ⟨?_, inert_below hinert⟩
  rw [String.toList_append]
  exact (inert_lines hinert).append (inert_of_no_star (by decide))

theorem head?_declarations (declared : List String) (d : Dialect) :
    (lines (newUniforms declared d) ++ "\n\n").toList.head? = some 'u' ∧
      (String.join ((newUniforms declared d).map ("\n" ++ ·))).toList.head? = some '\n' := by
  have hall : ∀ ls ∈ uniformChoices,
      (lines ls ++ "\n\n").toList.head? = some 'u' ∧
        (String.join (ls.map ("\n" ++ ·))).toList.head? = some '\n' := by
    decide +kernel
  exact hall _ (newUniforms_mem declared d)

theorem uniformLexemes_spec (declared : List String) (d : Dialect) :
    KeepsHeadings (uniformLexemes declared d) ∧ through 0 (uniformLexemes declared d) = some 0 ∧
      name "u_morphProgress" ∈ uniformLexemes declared d := by
  have hall : ∀ ls ∈ uniformChoices,
      KeepsHeadings (ls.flatMap fun line => significant line.toList) ∧
        through 0 (ls.flatMap fun line => significant line.toList) = some 0 ∧
          name "u_morphProgress" ∈ ls.flatMap fun line => significant line.toList := by decide +kernel
  exact hall _ (newUniforms_mem declared d)

/-! ## Helpers -/

/-- A name of a vector type in the `vec` spelling, by its characters. -/
def respelledName (cs : List Char) : List Char :=
  if cs = ['f', 'l', 'o', 'a', 't', '2'] then ['v', 'e', 'c', '2']
  else if cs = ['f', 'l', 'o', 'a', 't', '3'] then ['v', 'e', 'c', '3']
  else if cs = ['f', 'l', 'o', 'a', 't', '4'] then ['v', 'e', 'c', '4']
  else cs

theorem toList_respelled (name : String) : (Dialect.respelled name).toList = respelledName name.toList := by
  unfold Dialect.respelled
  split
  · rfl
  · rfl
  · rfl
  · rename_i h2 h3 h4
    have hne : ∀ {s : String} {cs : List Char}, (name = s → False) → s.toList = cs → name.toList ≠ cs := by
      intro s cs h hs heq
      exact h (String.toList_inj.mp (heq.trans hs.symm))
    rw [respelledName, if_neg (hne h2 String.toList_ofList), if_neg (hne h3 String.toList_ofList),
      if_neg (hne h4 String.toList_ofList)]

theorem toList_helpers_vec : Dialect.vec.helpers.toList = (read 0 Morph.helpers.toList).flatMap (respelledName ·.2) := by
  rw [← lexemes_eq_read, lexemes, List.flatMap_map]
  show (String.join ((Token.scan 0 0 Morph.helpers.toList).map fun t => Dialect.respelled t.text)).toList = _
  rw [String.toList_join, List.flatMap_map]
  simp only [toList_respelled, Token.lexeme]

/-- What is decided of both spellings of the helpers holds of them as a dialect spells them. -/
theorem decided_helpers (good : Dialect → List Char → Bool) (h : ∃ cs, Morph.helpers.toList = cs ∧ good .float cs = true ∧
    good .vec ((read 0 cs).flatMap (respelledName ·.2)) = true) (d : Dialect) : good d d.helpers.toList = true := by
  obtain ⟨cs, hcs, hfloat, hvec⟩ := h
  cases d with
  | float => exact hcs ▸ hfloat
  | vec =>
    rw [toList_helpers_vec, hcs]
    exact hvec

/-- Before an entry point such a text changes neither its depth nor where the first heading is. -/
def keepsEntry (cs : List Char) : Bool :=
  isHarmless cs && decide (KeepsHeadings ((read 0 cs).filter isSignificant)) &&
    through 0 ((read 0 cs).filter isSignificant) == some 0

set_option maxRecDepth 100000 in
theorem keepsEntry_helpers (d : Dialect) : keepsEntry d.helpers.toList = true :=
  decided_helpers (fun _ => keepsEntry) ⟨_, String.toList_ofList, by decide +kernel, by decide +kernel⟩ d

/-- The lexemes of the helpers. -/
def helperLexemes (d : Dialect) : List Lexeme := significant d.helpers.toList

theorem helperLexemes_spec (d : Dialect) : KeepsHeadings (helperLexemes d) ∧
    through 0 (helperLexemes d) = some 0 := by
  have h := keepsEntry_helpers d
  simp only [keepsEntry, Bool.and_eq_true, decide_eq_true_eq, beq_iff_eq, ← lexemes_eq_read] at h
  exact ⟨h.1.2, h.2⟩

theorem significant_helpers (d : Dialect) (v : List Char) :
    significant ((d.helpers ++ "\n").toList ++ v) = helperLexemes d ++ significant v := by
  have h := keepsEntry_helpers d
  simp only [keepsEntry, Bool.and_eq_true] at h
  rw [String.toList_append, List.append_assoc, sealed_of_isHarmless h.1.1]
  exact congrArg _ (significant_blank (by decide) v)

theorem inert_helpers (d : Dialect) : Inert (d.helpers ++ "\n").toList := by
  have h := keepsEntry_helpers d
  simp only [keepsEntry, Bool.and_eq_true] at h
  rw [String.toList_append]
  exact (inert_of_isHarmless h.1.1).append (inert_of_no_star (by decide))

end ShaderLoom.Morph
