/-
  ShaderLoom.Proofs.Program.Layout — the text of a source and its lexemes, part by part.

  A source is its top, which ends with the last uniform, its middle up to the entry point, and the
  entry point (`exists_layout`). The top and the parts of the middle are closed, whatever name the
  header has and whatever constants there are (`closed_top`, `closed_middle`), so the significant
  lexemes of a source are those of its parts, and the header has none.
-/

import ShaderLoom.Proofs.Config.Reloaded
import ShaderLoom.Proofs.Program.Constants
import ShaderLoom.Proofs.Program.Entry

namespace ShaderLoom.Program

open ShaderLoom.Lexeme ShaderLoom.Morph ShaderLoom.Text

/-! ## Lines and parts -/

theorem isCut_line : isCut ['\n'] = true := by decide

theorem isCut_gap : isCut ['\n', '\n'] = true := by decide

section Lines

variable {l : String} {ls : List String}

theorem closed_below (h : Piece l.toList) : Closed (below l) := h.behind isCut_line

theorem significant_below (h : Piece l.toList) : significant (below l) = significant l.toList :=
  h.significant_behind isCut_line (by decide)

theorem piece_lines (h : ∀ m ∈ l :: ls, Piece m.toList) : Piece (lines (l :: ls)).toList := by
  obtain ⟨hl, hls⟩ := List.forall_mem_cons.mp h
  rw [toList_lines]
  refine ⟨hl.closed.append (.flatMap fun m hm => closed_below (hls m hm)), ?_⟩
  have hstart := hl.start
  cases hchars : l.toList with
  | nil =>
    rw [hchars] at hstart
    cases hstart
  | cons c cs =>
    rw [hchars] at hstart
    exact hstart

theorem significant_pieces (h : ∀ m ∈ l :: ls, Piece m.toList) :
    significant (lines (l :: ls)).toList = (l :: ls).flatMap (significant ·.toList) := by
  obtain ⟨hl, hls⟩ := List.forall_mem_cons.mp h
  rw [toList_lines, (hl.closed _).significant,
    significant_flatMap (fun m hm => closed_below (hls m hm)) fun m hm => significant_below (hls m hm)]
  rfl

end Lines

/-- A part with an empty line before it. -/
def apart (part : String) : List Char := '\n' :: below part

theorem toList_fragments_cons (p : String) (ps : List String) :
    (fragments (p :: ps)).toList = p.toList ++ ps.flatMap apart := by
  induction ps generalizing p with
  | nil => simp [fragments]
  | cons q ps ih =>
    rw [fragments, String.intercalate_cons_cons, String.toList_append, String.toList_append, List.append_assoc]
    show _ ++ ('\n' :: '\n' :: (fragments (q :: ps)).toList) = _
    rw [ih]
    rfl

theorem closed_apart {part : String} (h : Piece part.toList) : Closed (apart part) := h.behind isCut_gap

theorem significant_apart {part : String} (h : Piece part.toList) : significant (apart part) = significant part.toList :=
  h.significant_behind isCut_gap (by decide)

/-- A title is a comment on a line of its own. -/
structure Title (title : String) : Prop where
  cut : isCut ('\n' :: '\n' :: title.toList) = true
  none : significant ('\n' :: '\n' :: title.toList) = []

theorem apart_titled (title text : String) : apart (title ++ text) = '\n' :: '\n' :: title.toList ++ text.toList := by
  rw [apart, below, String.toList_append]
  rfl

theorem closed_titled {title text : String} (ht : Title title) (h : Piece text.toList) :
    Closed (apart (title ++ text)) := by
  rw [apart_titled]
  exact h.behind ht.cut

theorem significant_titled {title text : String} (ht : Title title) (h : Piece text.toList) :
    significant (apart (title ++ text)) = significant text.toList := by
  rw [apart_titled]
  exact h.significant_behind ht.cut ht.none

/-- The titles that a source has. -/
def titles : List String := ["// Uniforms\n", "// Color Palette\n", "// Effect Helpers\n", "// Main\n"]

theorem title_of_mem {title : String} (h : title ∈ titles) : Title title := by
  have hall : ∀ title ∈ titles, isCut ('\n' :: '\n' :: title.toList) = true ∧
      (read 0 ('\n' :: '\n' :: title.toList)).filter isSignificant = [] := by
    decide +kernel
  obtain ⟨hcut, hnone⟩ := hall title h
  exact ⟨hcut, by rwa [significant, lexemes_eq_read]⟩

/-! ## The top -/

section Header

variable {c : ShaderConfig}

theorem significant_comment {a : List Char} (ha : ∀ c ∈ a, c ≠ '\n') : significant ('/' :: '/' :: a) = [] := by
  have := significant_lineComment ha (v := []) rfl
  rwa [List.append_nil, significant_nil] at this

theorem oneLine_of_all {cs : List Char} (h : cs.all (· != '\n') = true) : ∀ d ∈ cs, d ≠ '\n' :=
  fun d hd => bne_iff_ne.mp (List.all_eq_true.mp h d hd)

/-- The header is two comments, the second one as far as the name goes on its line. -/
theorem toList_headerPart (htag : '\n' ∉ c.effectTag.toList) :
    ∃ a b, (headerPart c).toList = ('/' :: '/' :: a) ++ ('\n' :: '/' :: '/' :: (b ++ (c.name.text.toList ++ [')']))) ∧
      (∀ d ∈ a, d ≠ '\n') ∧ ∀ d ∈ b, d ≠ '\n' := by
  obtain ⟨a, ha, hline⟩ : ∃ a, header.toList = '/' :: '/' :: a ∧ ∀ d ∈ a, d ≠ '\n' :=
    ⟨_, String.toList_ofList, oneLine_of_all (by decide)⟩
  obtain ⟨b, hb, hline'⟩ : ∃ b, "\n// Effect: ".toList = '\n' :: '/' :: '/' :: b ∧ ∀ d ∈ b, d ≠ '\n' :=
    ⟨_, String.toList_ofList, oneLine_of_all (by decide)⟩
  have hopening : " (".toList = [' ', '('] := String.toList_ofList
  have hclosing : ")".toList = [')'] := String.toList_ofList
  refine ⟨a, b ++ (c.effectTag.toList ++ [' ', '(']), ?_, hline, ?_⟩
  · have happend : ∀ p q r s t u : String, (p ++ q ++ r ++ s ++ t ++ u).toList =
        p.toList ++ (q.toList ++ ((r.toList ++ s.toList) ++ (t.toList ++ u.toList))) := by
      intros
      simp only [String.toList_append, List.append_assoc]
    rw [headerPart, happend, ha, hb, hopening, hclosing, List.append_assoc b]
    rfl
  · have htagline : ∀ d ∈ c.effectTag.toList, d ≠ '\n' := fun d hd heq => htag (heq ▸ hd)
    exact List.forall_mem_append.mpr ⟨hline', List.forall_mem_append.mpr ⟨htagline, oneLine_of_all (by decide)⟩⟩

/-- With a name of one line these are all of it. -/
theorem toList_header (htag : '\n' ∉ c.effectTag.toList) (hname : '\n' ∉ c.name.text.toList) :
    ∃ a b, (headerPart c).toList = ('/' :: '/' :: a) ++ ('\n' :: '/' :: '/' :: b) ∧
      (∀ d ∈ a, d ≠ '\n') ∧ ∀ d ∈ b, d ≠ '\n' := by
  obtain ⟨a, b, htext, ha, hb⟩ := toList_headerPart htag
  have hnameline : ∀ d ∈ c.name.text.toList, d ≠ '\n' := fun d hd heq => hname (heq ▸ hd)
  exact ⟨a, _, htext, ha, List.forall_mem_append.mpr
    ⟨hb, List.forall_mem_append.mpr ⟨hnameline, oneLine_of_all (by decide)⟩⟩⟩

theorem header_spec (htag : '\n' ∉ c.effectTag.toList) (hname : '\n' ∉ c.name.text.toList) :
    (∀ v, Parted (headerPart c).toList ('\n' :: v)) ∧ significant (headerPart c).toList = [] := by
  obtain ⟨a, b, htext, ha, hb⟩ := toList_header htag hname
  have hfirst : ∀ v, Parted ('/' :: '/' :: a) ('\n' :: v) := fun v => parted_lineComment ha rfl
  have hline : ∀ v, Parted ['\n'] ('/' :: v) := fun v => parted_of_isCut isCut_line (Or.inl rfl)
  have hsecond : ∀ v, Parted ('\n' :: '/' :: '/' :: b) ('\n' :: v) := fun v =>
    (hline _).append (v := '/' :: '/' :: b) (parted_lineComment hb rfl)
  have hnone : significant ['\n'] = [] := by decide
  rw [htext]
  refine ⟨fun v => (hfirst _).append (v := '\n' :: '/' :: '/' :: b) (hsecond v), ?_⟩
  have hrest : significant ('\n' :: '/' :: '/' :: b) = [] := by
    have := (hline ('/' :: b)).significant
    rwa [hnone, significant_comment hb] at this
  rw [(hfirst _).significant, significant_comment ha, hrest]
  rfl

end Header

theorem piece_uniform {line : String} (h : line ∈ baseUniforms ++ colorUniforms) : Piece line.toList := by
  have hall : ∀ line ∈ baseUniforms ++ colorUniforms, isCut line.toList = true ∧
      line.toList.getLast?.all (!isBlank ·) = true ∧ startsWith (!isBlank ·) line.toList = true := by
    decide
  obtain ⟨hcut, hends, hstart⟩ := hall line h
  exact piece_of_isCut hcut hends hstart

/-- The uniforms that a configuration declares. -/
def uniformLines (c : ShaderConfig) : List String :=
  baseUniforms ++ if c.useUniformColors.isTrue then colorUniforms else []

theorem piece_uniformLines (c : ShaderConfig) : ∀ line ∈ uniformLines c, Piece line.toList := by
  intro line hline
  refine piece_uniform ?_
  rw [uniformLines] at hline
  split at hline
  · exact hline
  · exact List.mem_append_left _ (by rwa [List.append_nil] at hline)

/-- `uniform T N;` -/
def uniformItem (uniform : String × String) : List Lexeme :=
  [name "uniform", name uniform.1, name uniform.2, mark ';']

/-- The types and names of the uniforms that every source has. -/
def baseDeclared : List (String × String) :=
  [("float", "u_time"), ("float2", "u_resolution"), ("float", "u_complexity")]

def colorDeclared : List (String × String) :=
  [("float3", "u_colorA"), ("float3", "u_colorB"), ("float3", "u_colorC")]

def declared (uniformColors : Bool) : List (String × String) :=
  baseDeclared ++ if uniformColors then colorDeclared else []

theorem significant_uniformLines (c : ShaderConfig) :
    (uniformLines c).map (significant ·.toList) = (declared c.useUniformColors.isTrue).map uniformItem := by
  have hall : ∀ b : Bool, (baseUniforms ++ if b then colorUniforms else []).map (significant ·.toList) =
      (declared b).map uniformItem := by
    decide +kernel
  exact hall _

/-- A source up to its last uniform. -/
def topText (c : ShaderConfig) : List Char := (headerPart c).toList ++ apart ("// Uniforms\n" ++ uniforms c)

section Top

variable {c : ShaderConfig} (htag : '\n' ∉ c.effectTag.toList) (hname : '\n' ∉ c.name.text.toList)

include htag hname

theorem closed_top : Closed (topText c) := by
  have hclosed : Closed (apart ("// Uniforms\n" ++ uniforms c)) :=
    closed_titled (title_of_mem (by decide)) (piece_lines (piece_uniformLines c))
  exact Closed.prepend (fun w => (header_spec htag hname).1 _) hclosed

theorem significant_top : significant (topText c) = (declared c.useUniformColors.isTrue).flatMap uniformItem := by
  obtain ⟨hparted, hnone⟩ := header_spec htag hname
  have hpieces := piece_uniformLines c
  have huniforms : significant (apart ("// Uniforms\n" ++ uniforms c)) = significant (uniforms c).toList :=
    significant_titled (title_of_mem (by decide)) (piece_lines hpieces)
  have hlines : significant (uniforms c).toList = (uniformLines c).flatMap (significant ·.toList) :=
    significant_pieces hpieces
  have hcut : significant (topText c) = significant (headerPart c).toList ++
      significant (apart ("// Uniforms\n" ++ uniforms c)) := Parted.significant (hparted _)
  rw [hcut, hnone, huniforms, hlines, List.flatMap_def, significant_uniformLines, List.flatMap_def]
  rfl

end Top

/-! ## The middle -/

/-- The parts between the uniforms and the entry point. -/
def middleParts (c : ShaderConfig) (effect : EffectKind) (noise : NoiseKind) : List String :=
  palettePart c ++ noise.sources ++ (if effect.effect.turbulent then [Noise.turbulence] else []) ++
    ["// Effect Helpers\n" ++ effect.effect.helpers]

def middleText (c : ShaderConfig) (effect : EffectKind) (noise : NoiseKind) : List Char :=
  (middleParts c effect noise).flatMap apart ++ '\n' :: '\n' :: "// Main\n".toList

/-- The constants that a source has. -/
def constants (c : ShaderConfig) : Entries Rgb := if c.useUniformColors.isTrue then [] else c.palette.colors

/-- The functions of a source that are not the entry point, as they stand in the library. -/
def libraries (effect : EffectKind) (noise : NoiseKind) : List String :=
  noise.sources ++ (if effect.effect.turbulent then [Noise.turbulence] else []) ++ [effect.effect.helpers]

theorem library_of_mem {effect : EffectKind} {noise : NoiseKind} {f : String} (h : f ∈ libraries effect noise) :
    Library f.toList := by
  simp only [libraries, List.mem_append, List.mem_singleton] at h
  rcases h with (h | h) | rfl
  · exact library_noise h
  · split at h
    · rw [List.mem_singleton] at h
      exact h ▸ defines_turbulence.toLibrary
    · cases h
  · exact (defines_helpers effect).toLibrary

section Middle

variable {c : ShaderConfig} {effect : EffectKind} {noise : NoiseKind}
variable (hnames : ∀ color ∈ c.palette.colors, Shape.Identifier color.1)

theorem piece_constant {color : String × Rgb} (h : Shape.Identifier color.1) :
    Piece (Palette.constant color.1 color.2).toList := by
  refine ⟨closed_constant h, ?_⟩
  have hopening : startsWith (!isBlank ·) "const float3 ".toList = true := by decide
  rw [toList_constant]
  cases hchars : "const float3 ".toList with
  | nil =>
    rw [hchars] at hopening
    cases hopening
  | cons d ds =>
    rw [hchars] at hopening
    exact hopening

include hnames in
theorem palette_spec : Closed ((palettePart c).flatMap apart) ∧
    significant ((palettePart c).flatMap apart) = (constants c).flatMap constantLexemes := by
  have hnone : palettePart c = [] → constants c = [] → Closed ((palettePart c).flatMap apart) ∧
      significant ((palettePart c).flatMap apart) = (constants c).flatMap constantLexemes := by
    intro hpart hconstants
    rw [hpart, hconstants]
    exact ⟨closed_nil, rfl⟩
  by_cases huniform : c.useUniformColors.isTrue = true
  · exact hnone (by simp [palettePart, huniform]) (by simp [constants, huniform])
  · have hconstants : constants c = c.palette.colors := if_neg huniform
    cases hcolors : c.palette.colors with
    | nil => exact hnone (by simp [palettePart, hcolors]) (hconstants.trans hcolors)
    | cons color colors =>
      have hpart : palettePart c = ["// Color Palette\n" ++ c.palette.constants] := by
        simp [palettePart, huniform, hcolors]
      have hlines : c.palette.constants = lines (Palette.constant color.1 color.2 ::
          colors.map fun color => Palette.constant color.1 color.2) := by
        rw [Palette.constants, hcolors]
        rfl
      have hpieces : ∀ line ∈ Palette.constant color.1 color.2 ::
          colors.map (fun color => Palette.constant color.1 color.2), Piece line.toList := by
        intro line hline
        obtain ⟨color', hmem, rfl⟩ : ∃ color' ∈ color :: colors, Palette.constant color'.1 color'.2 = line := by
          rcases List.mem_cons.mp hline with rfl | hline
          · exact ⟨color, by simp, rfl⟩
          · obtain ⟨color', hmem, rfl⟩ := List.mem_map.mp hline
            exact ⟨color', List.mem_cons_of_mem _ hmem, rfl⟩
        exact piece_constant (hnames color' (hcolors ▸ hmem))
      rw [hpart, hconstants, hcolors, List.flatMap_singleton, hlines]
      have htitle : Title "// Color Palette\n" := title_of_mem (by decide)
      refine ⟨closed_titled htitle (piece_lines hpieces), ?_⟩
      rw [significant_titled htitle (piece_lines hpieces), significant_pieces hpieces, List.flatMap_cons,
        List.flatMap_map, List.flatMap_cons, significant_constant (hnames color (by simp [hcolors]))]
      have hall : colors.map (fun color => significant (Palette.constant color.1 color.2).toList) =
          colors.map constantLexemes :=
        List.map_congr_left fun color' hmem => significant_constant (hnames color' (by simp [hcolors, hmem]))
      rw [List.flatMap_def, List.flatMap_def]
      exact congrArg (constantLexemes color ++ List.flatten ·) hall

/-- The functions of a source, as its parts. -/
theorem middleParts_eq : ∃ others, middleParts c effect noise = palettePart c ++ (others ++
      ["// Effect Helpers\n" ++ effect.effect.helpers]) ∧
    libraries effect noise = others ++ [effect.effect.helpers] :=
  ⟨_, by rw [middleParts, List.append_assoc _ noise.sources, List.append_assoc], rfl⟩

include hnames in
theorem middle_spec : Closed ((middleParts c effect noise).flatMap apart) ∧
    significant ((middleParts c effect noise).flatMap apart) =
      (constants c).flatMap constantLexemes ++ (libraries effect noise).flatMap (significant ·.toList) := by
  obtain ⟨hpalette, hpaletteWords⟩ := palette_spec hnames
  obtain ⟨others, hparts, hlibraries⟩ := @middleParts_eq c effect noise
  have hlibrary : ∀ f ∈ libraries effect noise, Piece f.toList := fun f hf => (library_of_mem hf).piece
  have hhelpers : Piece effect.effect.helpers.toList := hlibrary _ (by simp [libraries])
  have hothers : ∀ f ∈ others, Closed (apart f) := fun f hf => closed_apart (hlibrary f (by simp [hlibraries, hf]))
  have hothersWords : ∀ f ∈ others, significant (apart f) = significant f.toList := fun f hf =>
    significant_apart (hlibrary f (by simp [hlibraries, hf]))
  have htitle : Title "// Effect Helpers\n" := title_of_mem (by decide)
  rw [hparts, hlibraries, List.flatMap_append, List.flatMap_append, List.flatMap_append, List.flatMap_singleton,
    List.flatMap_singleton]
  refine ⟨hpalette.append ((Closed.flatMap hothers).append (closed_titled htitle hhelpers)), ?_⟩
  rw [(hpalette _).significant, (Closed.flatMap hothers _).significant, hpaletteWords,
    significant_flatMap hothers hothersWords, significant_titled htitle hhelpers]

include hnames in
theorem closed_middle : Closed ((middleParts c effect noise).flatMap apart) := (middle_spec hnames).1

include hnames in
theorem significant_middle : significant (middleText c effect noise) =
    (constants c).flatMap constantLexemes ++ (libraries effect noise).flatMap (significant ·.toList) := by
  have htitle : Title "// Main\n" := title_of_mem (by decide)
  rw [middleText, ((middle_spec hnames).1 _).significant, (middle_spec hnames).2, htitle.none, List.append_nil]

end Middle

/-! ## The source -/

/-- What stands between the statements of an entry point and its alpha. -/
def beforeAlpha : String := "\n\n  return half4(color, "

/-- What stands behind the alpha. -/
def afterAlpha : String := ");\n\x7d\n"

/-- The text of a source, part by part. -/
theorem exists_layout {c : ShaderConfig} {source : String} (h : compose c = .ok source) :
    ∃ effect noise body, c.effect = .str (EffectKind.tag effect) ∧ c.noise = .str (NoiseKind.tag noise) ∧ Quiet body ∧
      source.toList = topText c ++ (middleText c effect noise ++ (heading.toList ++ (body ++ (beforeAlpha.toList ++
        ("1.0".toList ++ afterAlpha.toList))))) := by
  obtain ⟨effect, noise, main, heffect, -, hnoise, hmain, rfl⟩ := compose_eq_ok_iff.mp h
  obtain ⟨body, hbody, htext⟩ := exists_body hmain
  refine ⟨effect, noise, body, heffect, hnoise, hbody, ?_⟩
  have hparts : partsWith c effect noise main = headerPart c :: ("// Uniforms\n" ++ uniforms c) ::
      (middleParts c effect noise ++ ["// Main\n" ++ main]) := by
    simp only [partsWith, middleParts, List.cons_append, List.nil_append, List.append_assoc]
  have hclosing : '\n' :: '\n' :: ("  return half4(color, 1.0);".toList ++ ['\n', '\x7d', '\n']) =
      beforeAlpha.toList ++ ("1.0".toList ++ afterAlpha.toList) := by decide
  have hend : "\n".toList = ['\n'] := String.toList_ofList
  rw [String.toList_append, hparts, toList_fragments_cons, List.flatMap_cons, List.flatMap_append,
    List.flatMap_singleton, apart_titled "// Main\n", htext, hend, topText, middleText, ← hclosing]
  simp only [List.append_assoc, List.cons_append, List.nil_append]

/-- `half4 main(float2 xy) \x7b` -/
def headingLexemes : List Lexeme :=
  [name "half4", name "main", mark '(', name "float2", name "xy", mark ')', mark '\x7b']

/-- `return half4(color,` -/
def returnLexemes : List Lexeme := [name "return", name "half4", mark '(', name "color", mark ',']

/-- The alpha that a source returns. -/
def alphaLexeme : Lexeme := (.number, ['1', '.', '0'])

/-- `);` and the brace that ends the entry point. -/
def closingLexemes : List Lexeme := [mark ')', mark ';', mark '\x7d']

section Parts

variable {c : ShaderConfig} {effect : EffectKind} {noise : NoiseKind} {body : List Char}
variable (htag : '\n' ∉ c.effectTag.toList) (hname : '\n' ∉ c.name.text.toList)
variable (hnames : ∀ color ∈ c.palette.colors, Shape.Identifier color.1) (hbody : Quiet body)

include htag hname hnames hbody

/-- No lexeme lies across two parts of a source. -/
theorem lexemes_layout : lexemes (topText c ++ (middleText c effect noise ++ (heading.toList ++ (body ++
      (beforeAlpha.toList ++ ("1.0".toList ++ afterAlpha.toList)))))) =
    lexemes (topText c) ++ (lexemes (middleText c effect noise) ++ (lexemes heading.toList ++ (lexemes body ++
      (lexemes beforeAlpha.toList ++ (alphaLexeme :: lexemes afterAlpha.toList))))) := by
  have htitle : Title "// Main\n" := title_of_mem (by decide)
  have hmiddle : ∀ v, Parted (middleText c effect noise) (heading.toList ++ v) := fun v =>
    (closed_middle hnames _).append (parted_of_isCut htitle.cut (Or.inl rfl))
  have hheading : Closed heading.toList := closed_of_isCut (by decide) (by decide)
  have halpha : lexemes (beforeAlpha.toList ++ ("1.0".toList ++ afterAlpha.toList)) =
      lexemes beforeAlpha.toList ++ (alphaLexeme :: lexemes afterAlpha.toList) := by decide
  rw [closed_top htag hname, hmiddle, hheading, hbody.closed, halpha]

theorem significant_layout : significant (topText c ++ (middleText c effect noise ++ (heading.toList ++ (body ++
      (beforeAlpha.toList ++ ("1.0".toList ++ afterAlpha.toList)))))) =
    (declared c.useUniformColors.isTrue).flatMap uniformItem ++ ((constants c).flatMap constantLexemes ++
      ((libraries effect noise).flatMap (significant ·.toList) ++ (headingLexemes ++ (significant body ++
        (returnLexemes ++ alphaLexeme :: closingLexemes))))) := by
  have hheading : (lexemes heading.toList).filter isSignificant = headingLexemes := by decide
  have hclosing : (lexemes beforeAlpha.toList ++ (alphaLexeme :: lexemes afterAlpha.toList)).filter isSignificant =
      returnLexemes ++ alphaLexeme :: closingLexemes := by decide
  have htop := significant_top htag hname
  have hmiddle : significant (middleText c effect noise) = _ := significant_middle hnames
  rw [significant] at htop hmiddle
  rw [significant, lexemes_layout htag hname hnames hbody, List.filter_append, List.filter_append, List.filter_append,
    List.filter_append, hclosing, hheading, hmiddle, htop, List.append_assoc]
  rfl

end Parts

/-! ## Accepted configurations -/

section Accepted

variable {c : ShaderConfig} (h : Shape.Config c.toEntries)

include h

theorem identifier_of_config : ∀ color ∈ c.palette.colors, Shape.Identifier color.1 := by
  obtain ⟨v, hv, entries, rfl, hpalette⟩ := h.palette
  cases Option.some.inj hv
  obtain ⟨colors, hcolors, heach⟩ := hpalette.colors c.palette.toValue rfl
  cases hcolors
  intro color hcolor
  exact (heach color.1 color.2.toValue (List.mem_map_of_mem hcolor)).1

theorem uniformColors_of_config : ∃ b, c.useUniformColors = .bool b := h.useUniformColors c.useUniformColors rfl

theorem tag_of_config : '\n' ∉ c.effectTag.toList := by
  obtain ⟨kind, hkind⟩ := ShaderConfig.effect_of_config h
  have hall : ∀ kind : EffectKind, '\n' ∉ kind.tag.toList := by
    intro kind
    cases kind <;> decide
  rw [ShaderConfig.effectTag, hkind]
  exact hall kind

end Accepted

end ShaderLoom.Program
