/-
  ShaderLoom.Proofs.Program.Segments — a source as fixed texts with numbers between them.

  A segment is a text that stands in the source as it is, or a number that is written in its place.
  `segments` lays a configuration out as such a row and `render` writes the row down. The row is the
  source: composing is laying out and rendering, with the same fault if there is one
  (`compose_eq_render`). The numbers in it are the channels of the palette, the scale and the offset
  of the time, the pattern scale and the four numbers of the vignette, each with its decimals, and
  no others (`numbers_segments`).
-/

import ShaderLoom.Proofs.Program.Composed

namespace ShaderLoom.Program

open Outcome

inductive Segment where
  | text (s : String)
  | number (value : Value) (decimals : Option Int)

namespace Segment

def written : Segment → Except Fault String
  | .text s => pure s
  | .number value decimals => Literal.ofValue value decimals

def number? : Segment → Option (Value × Option Int)
  | .text _ => none
  | .number value decimals => some (value, decimals)

end Segment

def render : List Segment → Except Fault String
  | [] => pure ""
  | segment :: rest => do return (← segment.written) ++ (← render rest)

def numbers (segs : List Segment) : List (Value × Option Int) := segs.filterMap Segment.number?

/-- Rows of segments with a text between them. -/
def between (sep : String) (rows : List (List Segment)) : List Segment := [.text sep].intercalate rows

/-! ## The rows of a configuration -/

def constantRow (color : String × Rgb) : List Segment := [
  .text ("const float3 " ++ color.1 ++ " = float3("), .number (.float color.2.red) (some 2),
  .text ", ", .number (.float color.2.green) (some 2),
  .text ", ", .number (.float color.2.blue) (some 2), .text ");"]

def paletteRows (c : ShaderConfig) : List (List Segment) :=
  if c.useUniformColors.isTrue || c.palette.colors.isEmpty then []
  else [.text "// Color Palette\n" :: between "\n" (c.palette.colors.map constantRow)]

def timeRow (t : Timing) : List Segment :=
  .text "  float time = u_time * " :: .number t.scale none ::
    ((if t.offset.isTrue then [.text " + ", .number t.offset none] else []) ++ [.text ";"])

def scaleRows (params : Entries Value) : List (List Segment) :=
  match Entries.get? "patternScale" params with
  | some v@(.int _) | some v@(.float _) => [[.text "  uv *= ", .number v none, .text ";"]]
  | _ => []

def vignetteRow (v : Vignette) : List Segment := between "\n" [
  [.text "  // Vignette"],
  [.text "  float2 vignetteUV = xy / u_resolution;"],
  [.text "  float vignette = 1.0 - length((vignetteUV - 0.5) * ", .number v.strength (some 1), .text ");"],
  [.text "  vignette = smoothstep(0.0, ", .number v.smoothness (some 1), .text ", vignette);"],
  [.text "  color *= half(", .number v.baseBrightness (some 2), .text " + ", .number v.brightnessBoost (some 2),
    .text " * vignette);"]]

def entryRow (c : ShaderConfig) (e : Effect) : List Segment := between "\n" ([
  [.text "half4 main(float2 xy) \x7b"],
  [.text "  float2 uv = xy / u_resolution;"],
  [.text "  float aspect = u_resolution.x / u_resolution.y;"],
  [.text "  uv.x *= aspect;"],
  [.text ""],
  timeRow c.time] ++ scaleRows c.effectParams ++ [
  [.text ""],
  [.text e.main],
  [.text ""],
  vignetteRow c.resolvedVignette,
  [.text ""],
  [.text "  return half4(color, 1.0);"],
  [.text "\x7d"]])

/-- The parts below the header. -/
def partRows (c : ShaderConfig) (effect : EffectKind) (noise : NoiseKind) : List (List Segment) :=
  [.text ("// Uniforms\n" ++ uniforms c)] :: (paletteRows c ++ noise.sources.map ([.text ·]) ++
    (if effect.effect.turbulent then [[.text Noise.turbulence]] else []) ++
    [[.text ("// Effect Helpers\n" ++ effect.effect.helpers)], .text "// Main\n" :: entryRow c effect.effect])

/-- What a source has below its header. -/
def belowHeader (c : ShaderConfig) (effect : EffectKind) (noise : NoiseKind) : List Segment :=
  (partRows c effect noise).flatMap (.text "\n\n" :: ·) ++ [.text "\n"]

def segments (c : ShaderConfig) : Except Fault (List Segment) := do
  let effect ← EffectKind.ofValue c.effect
  c.name.checkPrintable
  let noise ← NoiseKind.ofValue c.noise
  return .text (headerPart c) :: belowHeader c effect noise

/-- The numbers that a configuration has in its source, each with its decimals. -/
def spliced (c : ShaderConfig) : List (Value × Option Int) :=
  (if c.useUniformColors.isTrue then [] else
    c.palette.colors.flatMap fun color => color.2.channels.map fun x => (.float x, some 2)) ++
  (c.time.scale, none) :: ((if c.time.offset.isTrue then [(c.time.offset, none)] else []) ++
    (match Entries.get? "patternScale" c.effectParams with
      | some v@(.int _) | some v@(.float _) => [(v, none)]
      | _ => []) ++
    [(c.resolvedVignette.strength, some 1), (c.resolvedVignette.smoothness, some 1),
      (c.resolvedVignette.baseBrightness, some 2), (c.resolvedVignette.brightnessBoost, some 2)])

/-! ## Rendering rows -/

variable {a b : List Segment} {sep s : String} {row : List Segment} {rows : List (List Segment)}

theorem render_append (a b : List Segment) : render (a ++ b) = (do return (← render a) ++ (← render b)) := by
  induction a with
  | nil =>
    show render b = render b >>= fun t => pure ("" ++ t)
    simp
  | cons segment a ih =>
    show segment.written >>= (fun s => render (a ++ b) >>= fun t => pure (s ++ t)) =
      (segment.written >>= fun s => render a >>= fun t => pure (s ++ t)) >>= fun s => render b >>= fun t => pure (s ++ t)
    rw [ih]
    simp only [bind_assoc, pure_bind, String.append_assoc]

theorem render_text_cons (s : String) (rest : List Segment) : render (.text s :: rest) = (s ++ ·) <$> render rest := rfl

theorem render_text (s : String) : render [.text s] = pure s := congrArg Except.ok String.append_empty

theorem between_singleton : between sep [row] = row := by simp [between, List.intercalate]

theorem between_cons_cons {row' : List Segment} :
    between sep (row :: row' :: rows) = row ++ .text sep :: between sep (row' :: rows) := by
  simp [between, List.intercalate]

theorem render_between : render (between sep rows) = sep.intercalate <$> rows.mapM render := by
  induction rows with
  | nil => rfl
  | cons row rows ih =>
    cases rows with
    | nil => simp [between_singleton]
    | cons row' rows =>
      rw [between_cons_cons, render_append, render_text_cons, ih]
      simp [List.mapM_cons, String.intercalate_cons_cons, String.append_assoc]

theorem render_timeRow (t : Timing) : render (timeRow t) = timeStatement t := by
  cases h : t.offset.isTrue <;>
    simp [timeRow, timeStatement, h, render, Segment.written, String.append_assoc]

theorem mapM_scaleRows (params : Entries Value) : (scaleRows params).mapM render = patternScale params := by
  have hrow (v : Value) : [[.text "  uv *= ", .number v none, .text ";"]].mapM render =
      (do return ["  uv *= " ++ (← Literal.ofValue v none) ++ ";"]) := by
    simp [render, Segment.written, String.append_assoc]
  unfold scaleRows patternScale
  cases Entries.get? "patternScale" params with
  | none => rfl
  | some v => cases v <;> first | exact hrow _ | rfl

theorem render_vignetteRow (v : Vignette) : render (vignetteRow v) = v.source := by
  rw [vignetteRow, render_between, Vignette.source]
  simp only [List.mapM_cons, List.mapM_nil, render, Segment.written, pure_bind, bind_assoc, map_eq_pure_bind,
    String.append_assoc, String.append_empty, lines]

theorem render_entryRow (c : ShaderConfig) (e : Effect) : render (entryRow c e) = entryPoint c e := by
  rw [entryRow, render_between, entryPoint]
  simp only [List.mapM_append, List.mapM_cons, List.mapM_nil, render_text, mapM_scaleRows, render_timeRow,
    render_vignetteRow, lines, pure_bind, bind_assoc, map_eq_pure_bind, List.cons_append, List.nil_append]

/-! ## The whole source -/

theorem render_constantRow (color : String × Rgb) :
    render (constantRow color) = .ok (Palette.constant color.1 color.2) := by
  simp only [constantRow, render, Segment.written]
  show Except.ok _ = Except.ok _
  unfold Palette.constant Rgb.literal
  simp only [String.append_assoc, String.append_empty]
  rfl

theorem mapM_paletteRows (c : ShaderConfig) : (paletteRows c).mapM render = .ok (palettePart c) := by
  rw [paletteRows, palettePart]
  split
  · rfl
  · have hrows : (c.palette.colors.map constantRow).mapM render = .ok (c.palette.colors.map fun color =>
        Palette.constant color.1 color.2) := by
      rw [List.mapM_map]
      exact mapM_of_ok fun color _ => render_constantRow color
    have hconstants : render (between "\n" (c.palette.colors.map constantRow)) = .ok c.palette.constants := by
      rw [render_between, hrows]
      rfl
    rw [List.mapM_cons, render_text_cons, hconstants]
    rfl

theorem mapM_texts (l : List String) : (l.map fun s => [Segment.text s]).mapM render = .ok l := by
  rw [List.mapM_map]
  have := mapM_of_ok (l := l) (f := render ∘ fun s => [Segment.text s]) (g := id) fun s _ => render_text s
  rwa [List.map_id] at this

theorem mapM_partRows (c : ShaderConfig) (effect : EffectKind) (noise : NoiseKind) :
    ([.text (headerPart c)] :: partRows c effect noise).mapM render =
      partsWith c effect noise <$> entryPoint c effect.effect := by
  have hturbulent : (if effect.effect.turbulent then [[.text Noise.turbulence]] else [] : List (List Segment)).mapM
      render = .ok (if effect.effect.turbulent then [Noise.turbulence] else []) := by
    split
    · exact mapM_texts [Noise.turbulence]
    · rfl
  have hmain : render (.text "// Main\n" :: entryRow c effect.effect) =
      ("// Main\n" ++ ·) <$> entryPoint c effect.effect := by
    rw [render_text_cons, render_entryRow]
  simp only [partRows, List.mapM_cons, List.mapM_append, List.mapM_nil, render_text, mapM_texts, mapM_paletteRows,
    hturbulent, hmain]
  cases entryPoint c effect.effect <;> rfl

theorem between_cons (row : List Segment) (rows : List (List Segment)) :
    between sep (row :: rows) = row ++ rows.flatMap (.text sep :: ·) := by
  induction rows generalizing row with
  | nil => simp [between_singleton]
  | cons row' rows ih => rw [between_cons_cons, ih, List.flatMap_cons, List.cons_append]

theorem render_segments (c : ShaderConfig) (effect : EffectKind) (noise : NoiseKind) :
    render (.text (headerPart c) :: belowHeader c effect noise) =
      (fun main => fragments (partsWith c effect noise main) ++ "\n") <$> entryPoint c effect.effect := by
  have hrows : .text (headerPart c) :: belowHeader c effect noise =
      between "\n\n" ([.text (headerPart c)] :: partRows c effect noise) ++ [.text "\n"] := by
    rw [between_cons, belowHeader, List.append_assoc]
    rfl
  rw [hrows, render_append, render_between, mapM_partRows, render_text]
  cases entryPoint c effect.effect <;> rfl

/-- Composing is laying out and writing down. -/
theorem compose_eq_render (c : ShaderConfig) : compose c = segments c >>= render := by
  rw [compose, parts, segments]
  cases heffect : EffectKind.ofValue c.effect with
  | error fault => rfl
  | ok effect =>
    cases hname : c.name.checkPrintable with
    | error fault => rfl
    | ok =>
      cases hnoise : NoiseKind.ofValue c.noise with
      | error fault => rfl
      | ok noise =>
        have hcompose := compose_of_kinds (EffectKind.ofValue_eq_ok_iff.mp heffect)
          (Value.checkPrintable_eq_ok_iff.mp hname) (NoiseKind.ofValue_eq_ok_iff.mp hnoise)
        rw [compose, parts, heffect, hname, hnoise] at hcompose
        exact hcompose.trans (render_segments c effect noise).symm

/-! ## What is in the row -/

/-- A row is written down exactly when each of its numbers has a literal. -/
theorem render_eq_ok_iff {segs : List Segment} : (∃ source, render segs = .ok source) ↔
    ∀ n ∈ numbers segs, ∃ s, Literal.ofValue n.1 n.2 = .ok s := by
  induction segs with
  | nil => simp [numbers, render, pure, Except.pure]
  | cons segment rest ih =>
    have hcons : (∃ source, render (segment :: rest) = .ok source) ↔
        (∃ s, segment.written = .ok s) ∧ ∃ source, render rest = .ok source := by
      simp only [render, bind_eq_ok]
      constructor
      · rintro ⟨source, s, hs, t, ht, -⟩
        exact ⟨⟨s, hs⟩, t, ht⟩
      · rintro ⟨⟨s, hs⟩, t, ht⟩
        exact ⟨_, s, hs, t, ht, rfl⟩
    rw [hcons, ih]
    cases segment with
    | text s => exact and_iff_right ⟨s, rfl⟩
    | number value decimals =>
      have hnumbers : numbers (.number value decimals :: rest) = (value, decimals) :: numbers rest := rfl
      rw [hnumbers, List.forall_mem_cons]
      rfl

@[simp] theorem numbers_nil : numbers [] = [] := rfl

@[simp] theorem numbers_text (s : String) (rest : List Segment) : numbers (.text s :: rest) = numbers rest := rfl

@[simp] theorem numbers_number (v : Value) (d : Option Int) (rest : List Segment) :
    numbers (.number v d :: rest) = (v, d) :: numbers rest := rfl

@[simp] theorem numbers_append (a b : List Segment) : numbers (a ++ b) = numbers a ++ numbers b := List.filterMap_append

theorem numbers_between (sep : String) (rows : List (List Segment)) : numbers (between sep rows) = rows.flatMap numbers := by
  cases rows with
  | nil => rfl
  | cons row rows =>
    have hrows : numbers (rows.flatMap (.text sep :: ·)) = rows.flatMap numbers := List.filterMap_flatMap
    rw [between_cons, numbers_append, hrows, List.flatMap_cons]

theorem numbers_texts (l : List String) : (l.map fun s => [Segment.text s]).flatMap numbers = [] := by
  rw [List.flatMap_map]
  exact List.flatMap_eq_nil_iff.mpr fun _ _ => rfl

theorem numbers_paletteRows (c : ShaderConfig) : (paletteRows c).flatMap numbers =
    if c.useUniformColors.isTrue then [] else
      c.palette.colors.flatMap fun color => color.2.channels.map fun x => (.float x, some 2) := by
  have hrows : (c.palette.colors.map constantRow).flatMap numbers =
      c.palette.colors.flatMap fun color => color.2.channels.map fun x => (.float x, some 2) := by
    rw [List.flatMap_map]
    rfl
  rw [paletteRows]
  cases c.useUniformColors.isTrue with
  | true => rfl
  | false =>
    rw [← hrows]
    cases c.palette.colors with
    | nil => rfl
    | cons color colors =>
      show numbers (between "\n" ((color :: colors).map constantRow)) ++ [] = _
      rw [List.append_nil, numbers_between]
      rfl

theorem numbers_scaleRows (params : Entries Value) : (scaleRows params).flatMap numbers =
    match Entries.get? "patternScale" params with
    | some v@(.int _) | some v@(.float _) => [(v, none)]
    | _ => [] := by
  unfold scaleRows
  cases Entries.get? "patternScale" params with
  | none => rfl
  | some v => cases v <;> rfl

theorem numbers_vignetteRow (v : Vignette) : numbers (vignetteRow v) =
    [(v.strength, some 1), (v.smoothness, some 1), (v.baseBrightness, some 2), (v.brightnessBoost, some 2)] := by
  rw [vignetteRow, numbers_between]
  rfl

theorem numbers_timeRow (t : Timing) :
    numbers (timeRow t) = (t.scale, none) :: if t.offset.isTrue then [(t.offset, none)] else [] := by
  cases h : t.offset.isTrue <;> simp [timeRow, h]

theorem numbers_entryRow (c : ShaderConfig) (e : Effect) : numbers (entryRow c e) = numbers (timeRow c.time) ++
    ((scaleRows c.effectParams).flatMap numbers ++ numbers (vignetteRow c.resolvedVignette)) := by
  rw [entryRow, numbers_between]
  simp

theorem numbers_belowHeader (c : ShaderConfig) (effect : EffectKind) (noise : NoiseKind) :
    numbers (belowHeader c effect noise) = spliced c := by
  have hrows : numbers ((partRows c effect noise).flatMap (.text "\n\n" :: ·)) =
      (partRows c effect noise).flatMap numbers := List.filterMap_flatMap
  have hturbulent : (if effect.effect.turbulent then [[.text Noise.turbulence]] else [] : List (List Segment)).flatMap
      numbers = [] := by
    split <;> rfl
  rw [belowHeader, numbers_append, hrows, partRows]
  simp only [List.flatMap_cons, List.flatMap_append, List.flatMap_nil, numbers_nil, numbers_text, numbers_texts,
    numbers_paletteRows, hturbulent, numbers_entryRow, numbers_timeRow, numbers_scaleRows, numbers_vignetteRow,
    spliced, List.append_nil, List.nil_append, List.cons_append, List.append_assoc]

/-- The numbers in the row are those of the configuration. -/
theorem numbers_segments {c : ShaderConfig} {segs : List Segment} (h : segments c = .ok segs) :
    numbers segs = spliced c := by
  obtain ⟨effect, -, h⟩ := bind_eq_ok.mp h
  obtain ⟨⟨⟩, -, h⟩ := bind_eq_ok.mp h
  obtain ⟨noise, -, h⟩ := bind_eq_ok.mp h
  cases h
  exact numbers_belowHeader c effect noise

/-- A configuration whose tags name kinds is laid out, with the numbers that it has. -/
theorem segments_of_kinds {c : ShaderConfig} {effect : EffectKind} {noise : NoiseKind}
    (he : c.effect = .str effect.tag) (hname : c.name.isPrintable = true) (hn : c.noise = .str noise.tag) :
    segments c = .ok (.text (headerPart c) :: belowHeader c effect noise) := by
  rw [segments, EffectKind.ofValue_eq_ok_iff.mpr he, Value.checkPrintable_eq_ok_iff.mpr hname,
    NoiseKind.ofValue_eq_ok_iff.mpr hn]
  rfl

/-- Its source is the header with what is written below it. -/
theorem compose_below_iff {c : ShaderConfig} {effect : EffectKind} {noise : NoiseKind} {source : String}
    (he : c.effect = .str effect.tag) (hname : c.name.isPrintable = true) (hn : c.noise = .str noise.tag) :
    compose c = .ok source ↔ ∃ tail, render (belowHeader c effect noise) = .ok tail ∧ headerPart c ++ tail = source := by
  have hcompose : compose c = (headerPart c ++ ·) <$> render (belowHeader c effect noise) := by
    rw [compose_eq_render, segments_of_kinds he hname hn]
    rfl
  rw [hcompose]
  cases render (belowHeader c effect noise) with
  | error fault => exact ⟨nofun, nofun⟩
  | ok tail => exact ⟨fun h => ⟨tail, rfl, Except.ok.inj h⟩, fun ⟨_, htail, h⟩ => Except.ok.inj htail ▸ h ▸ rfl⟩

end ShaderLoom.Program
