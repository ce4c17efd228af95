/-
  ShaderLoom.Proofs.Program.Names — the names that a source declares at file scope.

  Every item of a source declares one name: a uniform, a constant or a function. In order they are
  the uniforms, the colors of the palette unless they are uniforms, the functions of the noise, of
  turbulence and of the effect, and `main` (`compose_names`). The names other than the palette's
  are distinct in every source (`nodup_reserved`), so a name is declared twice exactly when the
  palette has it twice or has one of these. Nothing keeps a palette from that (`taken_name_composed`).
-/

import ShaderLoom.Proofs.Program.Outline
import ShaderLoom.Proofs.Program.Rendered

namespace ShaderLoom

open ShaderLoom.Lexeme ShaderLoom.Morph ShaderLoom.Text ShaderLoom.Outcome

namespace Program

/-! ## Items and the names they declare -/

/-- The items of a source at file scope. -/
def fileScope (source : String) : List (List Lexeme) :=
  itemsFrom 0 ((Token.significant (Token.tokenize source)).map Token.lexeme)

/-- The name that an item declares: `uniform T N;`, `const T N = …;` or a function. -/
def declaredName? : List Lexeme → Option String
  | (.name, keyword) :: (.name, _) :: (.name, n) :: (.mark, m) :: rest =>
    if keyword = "uniform".toList ∧ m = [';'] ∧ rest = [] ∨ keyword = "const".toList ∧ m = ['='] then
      some (String.ofList n)
    else none
  | item => functionName? item

/-- A source whose items declare these names, one each. -/
def Declares (source : String) (names : List String) : Prop := (fileScope source).map declaredName? = names.map some

theorem declaredName?_of_function {item : List Lexeme} {f : String} (h : functionName? item = some f) :
    declaredName? item = some f := by
  unfold functionName? at h
  split at h
  · rename_i type function rest
    exact h
  · cases h

theorem declared_of_functions {l : List (List Lexeme)} {names : List String} (h : l.map functionName? = names.map some) :
    l.map declaredName? = names.map some := by
  induction l generalizing names with
  | nil => exact h
  | cons item l ih =>
    cases names with
    | nil => cases h
    | cons f names =>
      obtain ⟨hitem, hl⟩ := List.cons.inj h
      rw [List.map_cons, List.map_cons, declaredName?_of_function hitem, ih hl]

theorem declaredName?_uniform (b : Bool) :
    ((declared b).map uniformItem).map declaredName? = ((declared b).map (·.2)).map some := by
  cases b <;> decide

theorem declaredName?_constant (color : String × Rgb) :
    declaredName? (constantLexemes color) = some (String.ofList (identifier color.1)) := rfl

theorem declaredName?_entry (statements : List Lexeme) : declaredName? (entryItem statements) = some "main" := by
  have hlast : ([name "float2", name "xy", mark ')', mark '\x7b'] ++
      (statements ++ (returnLexemes ++ alphaLexeme :: closingLexemes))).getLast? = some (mark '\x7d') := by
    rw [List.getLast?_append, List.getLast?_append]
    rfl
  refine declaredName?_of_function ?_
  exact if_pos hlast

/-! ## The names of a source -/

/-- The functions of the noise, of turbulence and of the effect. -/
def libraryNames (effect : EffectKind) (noise : NoiseKind) : List String :=
  noise.functions ++ ((if effect.effect.turbulent then ["turbulence"] else []) ++ effect.functions)

/-- The names of the constants, each without the line end that may stand behind it. -/
def paletteNames (c : ShaderConfig) : List String := (constants c).map fun color => String.ofList (identifier color.1)

/-- All names of a source, in order. -/
def scopeNames (c : ShaderConfig) (effect : EffectKind) (noise : NoiseKind) : List String :=
  (declared c.useUniformColors.isTrue).map (·.2) ++ (paletteNames c ++ (libraryNames effect noise ++ ["main"]))

/-- Those that it has whatever its palette. -/
def reserved (effect : EffectKind) (noise : NoiseKind) (uniformColors : Bool) : List String :=
  (declared uniformColors).map (·.2) ++ (libraryNames effect noise ++ ["main"])

theorem nodup_reserved (effect : EffectKind) (noise : NoiseKind) (uniformColors : Bool) :
    (reserved effect noise uniformColors).Nodup := by
  cases effect <;> cases noise <;> cases uniformColors <;> decide

theorem functions_libraries (effect : EffectKind) (noise : NoiseKind) :
    ((libraries effect noise).flatMap (items ·.toList)).map functionName? = (libraryNames effect noise).map some := by
  rw [libraries, libraryNames, List.flatMap_append, List.flatMap_append, List.flatMap_singleton, List.map_append,
    List.map_append, functions_noise, (defines_helpers effect).named, List.append_assoc, List.map_append,
    List.map_append]
  split
  · rw [List.flatMap_singleton, defines_turbulence.named]
  · rfl

theorem nodup_scopeNames_iff {c : ShaderConfig} {effect : EffectKind} {noise : NoiseKind} :
    (scopeNames c effect noise).Nodup ↔ (paletteNames c).Nodup ∧
      ∀ n ∈ paletteNames c, n ∉ reserved effect noise c.useUniformColors.isTrue := by
  have hperm : (scopeNames c effect noise).Perm
      (paletteNames c ++ reserved effect noise c.useUniformColors.isTrue) := List.perm_append_comm_assoc _ _ _
  rw [hperm.nodup_iff, List.nodup_append]
  constructor
  · rintro ⟨hpalette, -, hapart⟩
    exact ⟨hpalette, fun n hn hmem => hapart n hn n hmem rfl⟩
  · rintro ⟨hpalette, hfree⟩
    exact ⟨hpalette, nodup_reserved _ _ _, fun n hn m hm heq => hfree n hn (heq ▸ hm)⟩

/-- Every item of a source declares one name. -/
theorem exists_declared {c : ShaderConfig} {source : String} (hv : c.verdict = .passed)
    (hname : '\n' ∉ c.name.text.toList) (hs : compose c = .ok source) :
    ∃ effect noise, c.effect = .str (EffectKind.tag effect) ∧ c.noise = .str (NoiseKind.tag noise) ∧
      Declares source (scopeNames c effect noise) := by
  obtain ⟨entries, hentries, hc⟩ := Shape.judge_eq_passed_iff.mp hv
  cases hentries
  have hnames := identifier_of_config hc
  obtain ⟨effect, noise, body, heffect, hnoise, hbody, htext⟩ := exists_layout hs
  have hcut : fileScope source = (declared c.useUniformColors.isTrue).map uniformItem ++
      ((constants c).map constantLexemes ++ ((libraries effect noise).flatMap (items ·.toList) ++
        [entryItem (significant body)])) := by
    rw [fileScope, significant_tokens, htext, significant_layout (tag_of_config hc) hname hnames hbody]
    exact cut_layout hnames hbody
  have hpalette : ((constants c).map constantLexemes).map declaredName? = (paletteNames c).map some := by
    rw [paletteNames, List.map_map, List.map_map]
    exact List.map_congr_left fun color _ => declaredName?_constant color
  have hlibraries := declared_of_functions (functions_libraries effect noise)
  refine ⟨effect, noise, heffect, hnoise, ?_⟩
  rw [Declares, hcut, List.map_append, List.map_append, List.map_append, declaredName?_uniform, hpalette, hlibraries,
    List.map_singleton, declaredName?_entry, scopeNames, List.map_append, List.map_append, List.map_append]
  rfl

/-- The names of a source are those of its parts, and they are distinct exactly when the palette has
none of them twice and none of those that the source has anyway. -/
theorem compose_names {c : ShaderConfig} {source : String} (hv : c.verdict = .passed)
    (hname : '\n' ∉ c.name.text.toList) (hs : compose c = .ok source) :
    ∃ effect noise, c.effect = .str (EffectKind.tag effect) ∧ c.noise = .str (NoiseKind.tag noise) ∧
      Declares source (scopeNames c effect noise) ∧
      ((scopeNames c effect noise).Nodup ↔ (paletteNames c).Nodup ∧
        ∀ n ∈ paletteNames c, n ∉ reserved effect noise c.useUniformColors.isTrue) := by
  obtain ⟨effect, noise, heffect, hnoise, hdeclared⟩ := exists_declared hv hname hs
  exact ⟨effect, noise, heffect, hnoise, hdeclared, nodup_scopeNames_iff⟩

/-- The same configuration with one color under the given name. -/
def coloredAs (name : String) : ShaderConfig := { finiteNumbers with palette := ⟨[(name, ⟨.zero, .one, .zero⟩)]⟩ }

theorem coloredAs_names :
    (coloredAs "SKY").verdict = .passed ∧ '\n' ∉ (coloredAs "SKY").name.text.toList ∧
      ∃ source names, compose (coloredAs "SKY") = .ok source ∧
        Declares source names ∧ names.Nodup := by
  have hv : (coloredAs "SKY").verdict = .passed := by decide +kernel
  have hname : '\n' ∉ (coloredAs "SKY").name.text.toList := by decide
  obtain ⟨source, hs⟩ := exists_ok (x := compose (coloredAs "SKY")) (by decide +kernel)
  obtain ⟨effect, noise, -, -, hdeclared, hiff⟩ := compose_names hv hname hs
  have hpalette : paletteNames (coloredAs "SKY") = ["SKY"] := by decide
  have hfree : "SKY" ∉ reserved effect noise false := by
    cases effect <;> cases noise <;> decide
  refine ⟨hv, hname, source, _, hs, hdeclared, hiff.mpr ?_⟩
  rw [hpalette]
  exact ⟨by decide, List.forall_mem_singleton.mpr hfree⟩

/-- A color is accepted under the name of a uniform, and its source is made. -/
theorem taken_name_composed : (coloredAs "u_time").verdict = .passed ∧
    '\n' ∉ (coloredAs "u_time").name.text.toList ∧ ∃ source names, compose (coloredAs "u_time") = .ok source ∧
      Declares source names ∧ ¬names.Nodup := by
  have hv : (coloredAs "u_time").verdict = .passed := by decide +kernel
  have hname : '\n' ∉ (coloredAs "u_time").name.text.toList := by decide
  obtain ⟨source, hs⟩ := exists_ok (x := compose (coloredAs "u_time")) (by decide +kernel)
  obtain ⟨effect, noise, -, -, hdeclared⟩ := exists_declared hv hname hs
  have hpalette : paletteNames (coloredAs "u_time") = ["u_time"] := by decide
  have htaken : "u_time" ∈ reserved effect noise false := List.mem_cons_self
  refine ⟨hv, hname, source, _, hs, hdeclared, fun hnodup => ?_⟩
  exact (nodup_scopeNames_iff.mp hnodup).2 "u_time" (by rw [hpalette]; exact List.mem_singleton_self _) htaken

end Program

end ShaderLoom
