/-
  ShaderLoom.Proofs.Program.Outline — what a source declares and defines, in order.

  At file scope a source is a row of items and nothing else (`Outline.items`): the uniforms, the
  colors of the palette unless they are uniforms, the functions of the noise, of turbulence and of
  the effect, and the entry point. `compose_outline` says so of every configuration that is accepted,
  whatever name it has that stays on its line, and whatever numbers and colors.
-/

import ShaderLoom.Proofs.Program.Layout

namespace ShaderLoom

open ShaderLoom.Lexeme ShaderLoom.Morph ShaderLoom.Text ShaderLoom.Outcome

namespace Program

/-! ## Items -/

theorem isInner_of_not_mem {x : Lexeme} (h : ∀ c ∈ [';', '\x7b', '\x7d'], c ∉ x.2) : isInner x = true := by
  have hne : ∀ c ∈ [';', '\x7b', '\x7d'], x.2 ≠ [c] := fun c hc heq => h c hc (by rw [heq]; exact List.mem_singleton_self c)
  simp only [List.forall_mem_cons, List.not_mem_nil, false_implies, implies_true, and_true] at hne
  simp [isInner, opens, closes, hne]

theorem isInner_of_numeral {t : List Char} (ht : Numeral t) : ∀ x ∈ significant t, isInner x = true := by
  intro x hx
  have hnone : ([';', '\x7b', '\x7d'].all fun c => isNumeral c == false) = true := by decide
  refine isInner_of_not_mem fun c hc hmem => ?_
  have := ht c (mem_of_mem_significant hx hmem)
  rw [eq_of_beq (List.all_eq_true.mp hnone c hc)] at this
  cases this

/-- A constant is one statement. -/
theorem exists_inner {color : String × Rgb} (h : Shape.Identifier color.1) :
    ∃ xs, constantLexemes color = xs ++ [mark ';'] ∧ ∀ x ∈ xs, isInner x = true := by
  have hword : ([';', '\x7b', '\x7d'].all fun c => isWord c == false) = true := by decide
  have hname : isInner (.name, identifier color.1) = true := isInner_of_not_mem fun c hc hmem => by
    have := isWord_of_isName (identifier_spec h).1 c hmem
    rw [eq_of_beq (List.all_eq_true.mp hword c hc)] at this
    cases this
  have hchannel (x : Binary64) : ∀ y ∈ channelLexemes x, isInner y = true :=
    isInner_of_numeral (Literal.numeral_literal x (some 2))
  have hmark : isInner (mark ',') = true ∧ isInner (mark ')') = true := by decide
  have hopening : isInner (name "const") = true ∧ isInner (name "float3") = true ∧ isInner (mark '=') = true ∧
      isInner (mark '(') = true := by
    decide
  obtain ⟨hconst, htype, hassign, hbracket⟩ := hopening
  have hinner : ∀ y ∈ [name "const", name "float3", (.name, identifier color.1), mark '=', name "float3", mark '('] ++
      (channelLexemes color.2.red ++ mark ',' :: (channelLexemes color.2.green ++
        mark ',' :: (channelLexemes color.2.blue ++ [mark ')']))), isInner y = true := by
    simp only [List.forall_mem_append, List.forall_mem_cons, List.not_mem_nil, false_implies, implies_true, and_true]
    exact ⟨⟨hconst, htype, hname, hassign, htype, hbracket⟩, hchannel _, hmark.1, hchannel _, hmark.1, hchannel _,
      hmark.2⟩
  refine ⟨_, ?_, hinner⟩
  simp only [constantLexemes, List.append_assoc, List.cons_append, List.nil_append]

theorem isItem_constant {color : String × Rgb} (h : Shape.Identifier color.1) : IsItem (constantLexemes color) := by
  obtain ⟨xs, hxs, hinner⟩ := exists_inner h
  rw [hxs]
  exact isItem_statement hinner

theorem flatten_libraries (l : List String) :
    l.flatMap (significant ·.toList) = (l.flatMap (items ·.toList)).flatten := by
  induction l with
  | nil => rfl
  | cons f l ih =>
    rw [List.flatMap_cons, List.flatMap_cons, List.flatten_append, ih, items, flatten_itemsFrom]

/-- The entry point with the statements before its return. -/
def entryItem (statements : List Lexeme) : List Lexeme :=
  headingLexemes ++ (statements ++ (returnLexemes ++ alphaLexeme :: closingLexemes))

theorem isItem_entry {body : List Char} (h : Quiet body) : IsItem (entryItem (significant body)) := by
  have hheading : ∀ x ∈ [name "half4", name "main", mark '(', name "float2", name "xy", mark ')'], isInner x = true := by
    decide
  have hreturn : ∀ x ∈ returnLexemes ++ [alphaLexeme, mark ')', mark ';'], isFlat x = true := by decide
  have hbody : ∀ x ∈ significant body ++ (returnLexemes ++ [alphaLexeme, mark ')', mark ';']), isFlat x = true := by
    refine List.forall_mem_append.mpr ⟨fun x hx => ?_, hreturn⟩
    have := h.words x hx
    rw [isQuiet, Bool.and_eq_true, Bool.and_eq_true] at this
    exact this.1.1
  have hitem := isItem_block hheading hbody
  rw [List.append_assoc] at hitem
  exact hitem

/-! ## The outline -/

/-- What a source is made of at file scope. -/
structure Outline where
  effect : EffectKind
  noise : NoiseKind
  uniformColors : Bool
  /-- The body of the entry point before its return. -/
  statements : List Lexeme

namespace Outline

/-- The functions of a source other than the entry point. -/
def functions (o : Outline) : List (List Lexeme) :=
  o.noise.sources.flatMap (Program.items ·.toList) ++
    (if o.effect.effect.turbulent then Program.items Noise.turbulence.toList else []) ++
    Program.items o.effect.effect.helpers.toList

/-- All items, with these colors in the palette. -/
def items (o : Outline) (colors : Entries Rgb) : List (List Lexeme) :=
  baseDeclared.map uniformItem ++
    (if o.uniformColors then colorDeclared.map uniformItem else colors.map constantLexemes) ++
    o.functions ++ [entryItem o.statements]

/-- The outline is that of a configuration's source. -/
structure Of (o : Outline) (c : ShaderConfig) (source : String) : Prop where
  effect : c.effect = .str o.effect.tag
  noise : c.noise = .str o.noise.tag
  uniformColors : c.useUniformColors = .bool o.uniformColors
  cut : itemsFrom 0 ((Token.significant (Token.tokenize source)).map Token.lexeme) = o.items c.palette.colors
  /-- Every function of the noise, once. -/
  noiseFunctions : (o.noise.sources.flatMap (Program.items ·.toList)).map functionName? = o.noise.functions.map some
  once : o.noise.functions.Nodup
  turbulence : (Program.items Noise.turbulence.toList).map functionName? = [some "turbulence"]
  turbulent : o.effect.effect.turbulent = true ↔ o.effect = .liquidMarble
  /-- Every function of the effect, once. -/
  helpers : (Program.items o.effect.effect.helpers.toList).map functionName? = o.effect.functions.map some
  helpersOnce : o.effect.functions.Nodup
  /-- Whole statements, none of which is a block or returns. -/
  statementsEnd : o.statements.getLast? = some (mark ';')
  noReturn : name "return" ∉ o.statements
  noBlock : mark '\x7b' ∉ o.statements ∧ mark '\x7d' ∉ o.statements

end Outline

theorem item_libraries {effect : EffectKind} {noise : NoiseKind} :
    ∀ item ∈ (libraries effect noise).flatMap (items ·.toList), IsItem item := by
  intro item hitem
  obtain ⟨f, hf, hitem⟩ := List.mem_flatMap.mp hitem
  exact (library_of_mem hf).item item hitem

theorem cut_layout {c : ShaderConfig} {effect : EffectKind} {noise : NoiseKind} {body : List Char}
    (hnames : ∀ color ∈ c.palette.colors, Shape.Identifier color.1) (hbody : Quiet body) :
    itemsFrom 0 ((declared c.useUniformColors.isTrue).flatMap uniformItem ++ ((constants c).flatMap constantLexemes ++
      ((libraries effect noise).flatMap (significant ·.toList) ++ entryItem (significant body)))) =
      (declared c.useUniformColors.isTrue).map uniformItem ++ ((constants c).map constantLexemes ++
        ((libraries effect noise).flatMap (items ·.toList) ++ [entryItem (significant body)])) := by
  have huniforms : ∀ b, ∀ item ∈ (declared b).map uniformItem, IsItem item := by
    decide
  have hconstants : ∀ item ∈ (constants c).map constantLexemes, IsItem item := by
    intro item hitem
    obtain ⟨color, hcolor, rfl⟩ := List.mem_map.mp hitem
    rw [constants] at hcolor
    split at hcolor
    · cases hcolor
    · exact isItem_constant (hnames color hcolor)
  have hentry : itemsFrom 0 (entryItem (significant body)) = [entryItem (significant body)] := by
    have := itemsFrom_append (isItem_entry hbody) []
    rwa [List.append_nil] at this
  rw [List.flatMap_def, List.flatMap_def, flatten_libraries, itemsFrom_flatten_append (huniforms _),
    itemsFrom_flatten_append hconstants, itemsFrom_flatten_append item_libraries, hentry]

/-! ## The source -/

theorem once_functions (noise : NoiseKind) : noise.functions.Nodup := by
  cases noise <;> decide

theorem once_helpers (effect : EffectKind) : effect.functions.Nodup := by
  cases effect <;> decide

theorem turbulent_iff (effect : EffectKind) : effect.effect.turbulent = true ↔ effect = .liquidMarble := by
  cases effect <;> decide

/-- The source of an accepted configuration whose name stays on its line has an outline. -/
theorem compose_outline {c : ShaderConfig} {source : String} (hv : c.verdict = .passed)
    (hname : '\n' ∉ c.name.text.toList) (hs : compose c = .ok source) : ∃ o : Outline, o.Of c source := by
  obtain ⟨entries, hentries, hc⟩ := Shape.judge_eq_passed_iff.mp hv
  cases hentries
  have hnames := identifier_of_config hc
  obtain ⟨b, hb⟩ := uniformColors_of_config hc
  obtain ⟨effect, noise, body, heffect, hnoise, hbody, htext⟩ := exists_layout hs
  have hquiet : ∀ x ∈ significant body, isFlat x = true ∧ x.2 ≠ ['r', 'e', 't', 'u', 'r', 'n'] := by
    intro x hx
    have := hbody.words x hx
    simp only [isQuiet, Bool.and_eq_true, bne_iff_ne] at this
    exact this.1
  have hcolors : (declared c.useUniformColors.isTrue).map uniformItem ++ (constants c).map constantLexemes =
      baseDeclared.map uniformItem ++
        (if b then colorDeclared.map uniformItem else c.palette.colors.map constantLexemes) := by
    have htrue : c.useUniformColors.isTrue = b := by rw [hb]; rfl
    rw [constants, htrue, declared, List.map_append, List.append_assoc]
    cases b <;> rfl
  have hfunctions : (libraries effect noise).flatMap (items ·.toList) =
      Outline.functions ⟨effect, noise, b, significant body⟩ := by
    rw [libraries, List.flatMap_append, List.flatMap_append, List.flatMap_singleton, Outline.functions]
    split
    · rw [List.flatMap_singleton]
    · rfl
  refine ⟨⟨effect, noise, b, significant body⟩, {
    effect := heffect
    noise := hnoise
    uniformColors := hb
    cut := ?_
    noiseFunctions := functions_noise noise
    once := once_functions noise
    turbulence := defines_turbulence.named
    turbulent := turbulent_iff effect
    helpers := (defines_helpers effect).named
    helpersOnce := once_helpers effect
    statementsEnd := hbody.last
    noReturn := fun hmem => (hquiet _ hmem).2 rfl
    noBlock := ⟨fun hmem => absurd (hquiet _ hmem).1 (by decide), fun hmem => absurd (hquiet _ hmem).1 (by decide)⟩ }⟩
  rw [significant_tokens, htext, significant_layout (tag_of_config hc) hname hnames hbody]
  refine (cut_layout hnames hbody).trans ?_
  rw [← List.append_assoc, hcolors, hfunctions, Outline.items, List.append_assoc _ (Outline.functions _)]

theorem wholeNumbers_outline :
    wholeNumbers.verdict = .passed ∧ '\n' ∉ wholeNumbers.name.text.toList ∧
      ∃ source, compose wholeNumbers = .ok source ∧ ∃ o : Outline, o.Of wholeNumbers source := by
  have hv : wholeNumbers.verdict = .passed := by decide +kernel
  have hname : '\n' ∉ wholeNumbers.name.text.toList := by decide
  obtain ⟨source, hs⟩ := exists_ok (x := compose wholeNumbers) (by decide +kernel)
  exact ⟨hv, hname, source, hs, compose_outline hv hname hs⟩

end Program

end ShaderLoom
