/-
  ShaderLoom.Proofs.Config.Reloaded — a configuration saved and loaded gives the same shader.

  An accepted configuration may hold integers where loading leaves floats. Loading converts the
  numbers of the timing and of the vignette (`Timing.Loads`, `Vignette.Loads`); a literal converts
  its number as well, so it writes what it wrote before (`ofValue_loaded`), and a number is zero
  exactly when the converted one is (`isTrue_loaded`). The only thing that can go wrong on either
  way is an integer too large for a float (`OnlyTooLarge`). Main statement: `compose_reloaded`.
-/

import ShaderLoom.Proofs.Config.RoundTrip
import ShaderLoom.Proofs.Number.Numeral
import ShaderLoom.Proofs.Program.Composed

namespace ShaderLoom

open Outcome

/-! ## One fault -/

/-- Whatever goes wrong, it is an integer too large for a float. -/
def OnlyTooLarge {α : Type} (x : Except Fault α) : Prop := ∀ fault, x = .error fault → fault = .integerTooLarge

namespace OnlyTooLarge

variable {α β : Type}

theorem ok (a : α) : OnlyTooLarge (.ok a) := nofun

theorem bind {x : Except Fault α} {f : α → Except Fault β} (hx : OnlyTooLarge x) (hf : ∀ a, OnlyTooLarge (f a)) :
    OnlyTooLarge (x >>= f) := by
  cases x with
  | ok a => exact hf a
  | error fault =>
    intro fault' h
    cases h
    exact hx fault rfl

theorem map {x : Except Fault α} (hx : OnlyTooLarge x) (f : α → β) : OnlyTooLarge (f <$> x) := by
  cases x with
  | ok a => exact ok (f a)
  | error fault =>
    intro fault' h
    cases h
    exact hx fault rfl

theorem ok_or {x : Except Fault α} (hx : OnlyTooLarge x) : (∃ a, x = .ok a) ∨ x = .error .integerTooLarge := by
  cases x with
  | ok a => exact Or.inl ⟨a, rfl⟩
  | error fault => exact Or.inr (congrArg Except.error (hx fault rfl))

end OnlyTooLarge

/-! ## Numbers -/

section Numbers

variable {v : Value} {x : Binary64}

theorem Shape.IsNumber.onlyTooLarge (hv : Shape.IsNumber v) : OnlyTooLarge v.toNumber := by
  intro fault h
  cases hv with
  | float x => cases h
  | int n =>
    rw [Value.toNumber] at h
    cases hn : Binary64.ofInt? n with
    | some x =>
      rw [hn] at h
      cases h
    | none =>
      rw [hn] at h
      cases h
      rfl

theorem Literal.onlyTooLarge (hv : Shape.IsNumber v) {decimals : Option Int}
    (hd : Literal.checkDecimals decimals = .ok ()) : OnlyTooLarge (Literal.ofValue v decimals) := by
  rw [Literal.ofValue, hd]
  exact hv.onlyTooLarge.bind fun x => .ok _

theorem Literal.ofValue_loaded (h : v.toNumber = .ok x) (decimals : Option Int) :
    Literal.ofValue (.float x) decimals = Literal.ofValue v decimals := by
  rw [Literal.ofValue, Literal.ofValue, h]
  rfl

theorem Literal.exists_number {decimals : Option Int} {s : String} (h : Literal.ofValue v decimals = .ok s) :
    ∃ x, v.toNumber = .ok x := by
  obtain ⟨x, hx, -⟩ := bind_eq_ok.mp h
  exact ⟨x, hx⟩

/-- A number is zero exactly when it is zero as a float. -/
theorem Value.isTrue_loaded (hv : Shape.IsNumber v) (h : v.toNumber = .ok x) : (Value.float x).isTrue = v.isTrue := by
  cases hv with
  | float y =>
    cases h
    rfl
  | int n =>
    have hx := Value.toNumber_int h
    by_cases hn : n = 0
    · subst hn
      rw [Binary64.ofInt?_zero] at hx
      cases hx
      rfl
    · obtain ⟨p, rfl, hp⟩ := Binary64.ofInt?_eq_some hx
      have hpos : 0 < p.val := hp ▸ Binary64.positionOfRatio_pos (Int.natAbs_pos.mpr hn)
      have hzero : (p.val == 0) = false := beq_false_of_ne (Nat.ne_of_gt hpos)
      have hone : (n != 0) = true := bne_iff_ne.mpr hn
      rw [Value.isTrue, Value.isTrue, Binary64.isZero, hzero, hone, Bool.not_false]

/-- A number that counts as absent converts. -/
theorem Value.exists_number_of_not_isTrue (hv : Shape.IsNumber v) (h : v.isTrue = false) : ∃ x, v.toNumber = .ok x := by
  cases hv with
  | float x => exact ⟨x, rfl⟩
  | int n =>
    have hn : n = 0 := by simpa [Value.isTrue] using h
    exact ⟨.zero, by rw [hn, Value.toNumber, Binary64.ofInt?_zero]; rfl⟩

end Numbers

/-! ## Timings -/

namespace Timing

variable {t t' : Timing}

/-- The numbers of an accepted timing. -/
structure Numbers (t : Timing) : Prop where
  scale : Shape.IsNumber t.scale
  offset : Shape.IsNumber t.offset

/-- The second timing has the numbers of the first as floats. -/
def Loads (t t' : Timing) : Prop :=
  ∃ x y, t.scale.toNumber = .ok x ∧ t.offset.toNumber = .ok y ∧ t' = ⟨.float x, .float y⟩

theorem decode_toValue (t : Timing) : ShaderConfig.decodeTiming (ShaderConfig.entriesOf t.toValue) =
    (do return ⟨.float (← t.scale.toNumber), .float (← t.offset.toNumber)⟩) := by
  have hfixed : Entries.mapKeys Text.snakeCase [("scale", t.scale), ("offset", t.offset)] = _ :=
    Entries.mapKeys_of_fixed (by decide : ["scale", "offset"].Nodup) fun key hkey => key_fixed hkey
  rw [ShaderConfig.decodeTiming]
  show List.foldlM _ _ (Entries.mapKeys Text.snakeCase [("scale", t.scale), ("offset", t.offset)]) = _
  rw [hfixed]
  cases hx : t.scale.toNumber with
  | error fault => simp [hx, bind, Except.bind]
  | ok x =>
    cases hy : t.offset.toNumber with
    | error fault => simp [hx, hy, bind, Except.bind, setter?, pure, Except.pure]
    | ok y => simp [hx, hy, bind, Except.bind, setter?, pure, Except.pure]

theorem decode_toValue_eq_ok_iff :
    ShaderConfig.decodeTiming (ShaderConfig.entriesOf t.toValue) = .ok t' ↔ t.Loads t' := by
  rw [decode_toValue, bind_eq_ok]
  constructor
  · rintro ⟨x, hx, h⟩
    obtain ⟨y, hy, h⟩ := bind_eq_ok.mp h
    exact ⟨x, y, hx, hy, (Except.ok.inj h).symm⟩
  · rintro ⟨x, y, hx, hy, rfl⟩
    exact ⟨x, hx, bind_eq_ok.mpr ⟨y, hy, rfl⟩⟩

theorem Numbers.decode_onlyTooLarge (h : t.Numbers) :
    OnlyTooLarge (ShaderConfig.decodeTiming (ShaderConfig.entriesOf t.toValue)) := by
  rw [decode_toValue]
  exact h.scale.onlyTooLarge.bind fun x => h.offset.onlyTooLarge.bind fun y => .ok _

theorem statement_loaded (ht : t.Numbers) (h : t.Loads t') :
    Program.timeStatement t' = Program.timeStatement t := by
  obtain ⟨x, y, hx, hy, rfl⟩ := h
  simp only [Program.timeStatement, Literal.ofValue_loaded hx, Literal.ofValue_loaded hy,
    Value.isTrue_loaded ht.offset hy]

theorem Numbers.statement_onlyTooLarge (h : t.Numbers) : OnlyTooLarge (Program.timeStatement t) := by
  refine (Literal.onlyTooLarge h.scale rfl).bind fun scale => ?_
  have hoffset : OnlyTooLarge ((" + " ++ ·) <$> Literal.ofValue t.offset none) :=
    (Literal.onlyTooLarge h.offset rfl).map _
  by_cases hzero : t.offset.isTrue = true
  · simp only [hzero, if_true]
    exact hoffset.bind fun offset => .ok _
  · simp only [hzero]
    exact .ok _

theorem exists_loads (ht : t.Numbers) {s : String} (h : Program.timeStatement t = .ok s) : ∃ t', t.Loads t' := by
  obtain ⟨scale, hscale, h⟩ := bind_eq_ok.mp h
  obtain ⟨x, hx⟩ := Literal.exists_number hscale
  obtain ⟨y, hy⟩ : ∃ y, t.offset.toNumber = .ok y := by
    by_cases hzero : t.offset.isTrue = true
    · simp only [hzero, if_true] at h
      obtain ⟨offset, hoffset, -⟩ := bind_eq_ok.mp h
      cases hliteral : Literal.ofValue t.offset none with
      | error fault =>
        rw [hliteral] at hoffset
        cases hoffset
      | ok literal => exact Literal.exists_number hliteral
    · exact Value.exists_number_of_not_isTrue ht.offset (Bool.eq_false_iff.mpr hzero)
  exact ⟨_, x, y, hx, hy, rfl⟩

end Timing

/-! ## Vignettes -/

namespace Vignette

variable {v v' : Vignette}

structure Numbers (v : Vignette) : Prop where
  strength : Shape.IsNumber v.strength
  smoothness : Shape.IsNumber v.smoothness
  baseBrightness : Shape.IsNumber v.baseBrightness
  brightnessBoost : Shape.IsNumber v.brightnessBoost

def Loads (v v' : Vignette) : Prop :=
  ∃ a b c d, v.strength.toNumber = .ok a ∧ v.smoothness.toNumber = .ok b ∧ v.baseBrightness.toNumber = .ok c ∧
    v.brightnessBoost.toNumber = .ok d ∧ v' = ⟨.float a, .float b, .float c, .float d⟩

theorem numbers_standard : standard.Numbers := ⟨.float _, .float _, .float _, .float _⟩

theorem key_fixed {key : String} (h : key ∈ Entries.keys v.fields) : Text.snakeCase key = key := by
  have hkeys : ∀ key ∈ ["strength", "smoothness", "base_brightness", "brightness_boost"], Text.snakeCase key = key := by
    decide
  exact hkeys key h

theorem ofOverrides_toValue (v : Vignette) : ofOverrides v.toValue =
    (do return ⟨.float (← v.strength.toNumber), .float (← v.smoothness.toNumber),
      .float (← v.baseBrightness.toNumber), .float (← v.brightnessBoost.toNumber)⟩) := by
  have hkeys := fun key (h : key ∈ Entries.keys v.fields) => key_fixed h
  simp only [fields, Entries.keys, List.map_cons, List.map_nil, List.forall_mem_cons] at hkeys
  obtain ⟨hstrength, hsmoothness, hbase, hboost, -⟩ := hkeys
  show withOverrides v.fields = _
  simp only [withOverrides, fields, List.foldlM_cons, List.foldlM_nil, override, hstrength, hsmoothness, hbase,
    hboost, setter?, bind_assoc, pure_bind]

theorem ofOverrides_toValue_eq_ok_iff : ofOverrides v.toValue = .ok v' ↔ v.Loads v' := by
  rw [ofOverrides_toValue]
  simp only [bind_eq_ok]
  constructor
  · rintro ⟨a, ha, b, hb, c, hc, d, hd, h⟩
    exact ⟨a, b, c, d, ha, hb, hc, hd, (Except.ok.inj h).symm⟩
  · rintro ⟨a, b, c, d, ha, hb, hc, hd, rfl⟩
    exact ⟨a, ha, b, hb, c, hc, d, hd, rfl⟩

theorem Numbers.ofOverrides_onlyTooLarge (h : v.Numbers) : OnlyTooLarge (ofOverrides v.toValue) := by
  rw [ofOverrides_toValue]
  exact h.strength.onlyTooLarge.bind fun a => h.smoothness.onlyTooLarge.bind fun b =>
    h.baseBrightness.onlyTooLarge.bind fun c => h.brightnessBoost.onlyTooLarge.bind fun d => .ok _

theorem source_loaded (h : v.Loads v') : v'.source = v.source := by
  obtain ⟨a, b, c, d, ha, hb, hc, hd, rfl⟩ := h
  simp only [source, Literal.ofValue_loaded ha, Literal.ofValue_loaded hb, Literal.ofValue_loaded hc,
    Literal.ofValue_loaded hd]

theorem Numbers.source_onlyTooLarge (h : v.Numbers) : OnlyTooLarge v.source :=
  (Literal.onlyTooLarge h.strength rfl).bind fun _ => (Literal.onlyTooLarge h.smoothness rfl).bind fun _ =>
    (Literal.onlyTooLarge h.baseBrightness rfl).bind fun _ =>
      (Literal.onlyTooLarge h.brightnessBoost rfl).bind fun _ => .ok _

theorem exists_loads {s : String} (h : v.source = .ok s) : ∃ v', v.Loads v' := by
  obtain ⟨strength, hstrength, h⟩ := bind_eq_ok.mp h
  obtain ⟨smoothness, hsmoothness, h⟩ := bind_eq_ok.mp h
  obtain ⟨base, hbase, h⟩ := bind_eq_ok.mp h
  obtain ⟨boost, hboost, -⟩ := bind_eq_ok.mp h
  obtain ⟨a, ha⟩ := Literal.exists_number hstrength
  obtain ⟨b, hb⟩ := Literal.exists_number hsmoothness
  obtain ⟨c, hc⟩ := Literal.exists_number hbase
  obtain ⟨d, hd⟩ := Literal.exists_number hboost
  exact ⟨_, a, b, c, d, ha, hb, hc, hd, rfl⟩

end Vignette

/-! ## The configuration -/

namespace ShaderConfig

variable {c c' : ShaderConfig}

/-- What the schema asks of the fields that a source is made from. -/
structure Accepted (c : ShaderConfig) : Prop where
  name : ∃ s, c.name = .str s
  noise : ∃ kind : NoiseKind, c.noise = .str kind.tag
  effect : ∃ kind : EffectKind, c.effect = .str kind.tag
  time : c.time.Numbers
  vignette : ∀ v, c.vignette = some v → v.Numbers

theorem small_of_all {s : String} (h : (s.toList.all fun c => c.isLower || c == '_') = true) :
    ∀ c ∈ s.toList, c.isLower ∨ c = '_' := by
  simpa using h

theorem noise_of_config (h : Shape.Config c.toEntries) : ∃ kind : NoiseKind, c.noise = .str kind.tag := by
  obtain ⟨v, hv, kind, rfl⟩ := h.noise
  have htag : c.noise.text = kind.tag := Value.str.inj (Option.some.inj hv)
  exact ⟨kind, Value.eq_str_of_text htag (by cases kind <;> decide) (small_of_all (by cases kind <;> decide))⟩

theorem effect_of_config (h : Shape.Config c.toEntries) : ∃ kind : EffectKind, c.effect = .str kind.tag := by
  obtain ⟨v, hv, kind, rfl⟩ := h.effect
  have htag : c.effect.text = kind.tag := Value.str.inj (Option.some.inj hv)
  exact ⟨kind, Value.eq_str_of_text htag (by cases kind <;> decide) (small_of_all (by cases kind <;> decide))⟩

theorem time_of_config (h : Shape.Config c.toEntries) : c.time.Numbers := by
  obtain ⟨v, hv, entries, rfl, htime⟩ := h.time
  cases Option.some.inj hv
  obtain ⟨scale, hscale, hnumber⟩ := htime.scale
  cases Option.some.inj hscale
  exact ⟨hnumber.number, htime.offset _ rfl⟩

theorem name_of_config (h : Shape.Config c.toEntries) : ∃ s, c.name = .str s := by
  obtain ⟨v, hv, s, rfl, -⟩ := h.name
  exact ⟨s, Option.some.inj hv⟩

theorem get?_vignette {v : Vignette} (h : c.vignette = some v) :
    Entries.get? "vignette" c.toEntries = some v.toValue := by
  rw [toEntries, h]
  rfl

theorem vignette_of_config (h : Shape.Config c.toEntries) {v : Vignette} (hv : c.vignette = some v) : v.Numbers := by
  rcases h.vignette _ (get?_vignette hv) with hnull | ⟨entries, hentries, hnumbers⟩
  · cases hnull
  · cases hentries
    exact {
      strength := hnumbers "strength" _ (by simp [Vignette.fields])
      smoothness := hnumbers "smoothness" _ (by simp [Vignette.fields])
      baseBrightness := hnumbers "base_brightness" _ (by simp [Vignette.fields])
      brightnessBoost := hnumbers "brightness_boost" _ (by simp [Vignette.fields]) }

theorem accepted_of_config (h : Shape.Config c.toEntries) : c.Accepted where
  name := name_of_config h
  noise := noise_of_config h
  effect := effect_of_config h
  time := time_of_config h
  vignette := fun _ => vignette_of_config h

theorem Accepted.name_printable (h : c.Accepted) : c.name.isPrintable = true := by
  obtain ⟨s, hs⟩ := h.name
  rw [hs, Value.isPrintable_str]

theorem Accepted.resolvedVignette (h : c.Accepted) : c.resolvedVignette.Numbers := by
  rw [ShaderConfig.resolvedVignette]
  cases hv : c.vignette with
  | none => exact Vignette.numbers_standard
  | some v => exact h.vignette v hv

/-- What loading leaves of the other fields beside a timing and a vignette. -/
def loadedWith (c : ShaderConfig) (time : Timing) (vignette : Option Vignette) : ShaderConfig where
  id := .int (c.id.wholeNumber?.getD 0)
  name := .str c.name.text
  description := .str c.description.text
  fallbackColor := .str c.fallbackColor.text
  noise := .str c.noiseTag
  time := time
  palette := c.palette
  effect := .str c.effectTag
  effectParams := c.effectParams
  vignette := vignette
  useUniformColors := .bool c.useUniformColors.isTrue

theorem once_of_isKeyed (h : c.toValue.isKeyed = true) : (Entries.keys c.palette.colors).Nodup := by
  have hblock := (Value.isKeyed_map.mp h).2 ("palette", .map [("colors", c.palette.toValue)]) (by simp [toEntries])
  have hcolors := (Value.isKeyed_map.mp hblock).2 ("colors", c.palette.toValue) List.mem_cons_self
  have hkeys := (Value.isKeyed_map.mp hcolors).1
  rwa [Entries.keys, List.map_map] at hkeys

theorem ofValue_toValue (hc : Shape.Config c.toEntries) (hk : c.toValue.isKeyed = true) :
    ofValue c.toValue = (do
      let time ← decodeTiming (entriesOf c.time.toValue)
      let vignette ← decodeVignette (field "vignette" c.toEntries)
      return c.loadedWith time vignette) := by
  show ofNormalized (Entries.mapKeys Text.snakeCase c.toEntries) = _
  rw [mapKeys_toEntries, ofNormalized_of_shape hc]
  show decodeTiming (entriesOf c.time.toValue) >>= (fun time => Palette.ofValue c.palette.toValue >>= _) = _
  rw [Palette.ofValue_of_once (once_of_isKeyed hk)]
  rfl

theorem decodeVignette_eq_ok_iff {vignette : Option Vignette} :
    decodeVignette (field "vignette" c.toEntries) = .ok vignette ↔
      Option.Rel Vignette.Loads c.vignette vignette := by
  rw [field_vignette]
  cases c.vignette with
  | none =>
    show Except.ok none = Except.ok vignette ↔ _
    cases vignette <;> simp
  | some v =>
    show (Vignette.ofOverrides v.toValue >>= _) = _ ↔ _
    rw [bind_eq_ok]
    simp only [Vignette.ofOverrides_toValue_eq_ok_iff]
    cases vignette with
    | none => simp [pure, Except.pure]
    | some v' => simp [pure, Except.pure]

theorem Accepted.decodeVignette_onlyTooLarge (h : c.Accepted) :
    OnlyTooLarge (decodeVignette (field "vignette" c.toEntries)) := by
  rw [field_vignette]
  cases hv : c.vignette with
  | none => exact .ok none
  | some v => exact (h.vignette v hv).ofOverrides_onlyTooLarge.bind fun _ => .ok _

theorem ofValue_onlyTooLarge (hc : Shape.Config c.toEntries) (hk : c.toValue.isKeyed = true) :
    OnlyTooLarge (ofValue c.toValue) := by
  have h := accepted_of_config hc
  rw [ofValue_toValue hc hk]
  exact h.time.decode_onlyTooLarge.bind fun _ => h.decodeVignette_onlyTooLarge.bind fun _ => .ok _

theorem ofValue_eq_ok_iff (hc : Shape.Config c.toEntries) (hk : c.toValue.isKeyed = true) :
    ofValue c.toValue = .ok c' ↔ ∃ time vignette, c.time.Loads time ∧
      Option.Rel Vignette.Loads c.vignette vignette ∧ c' = c.loadedWith time vignette := by
  rw [ofValue_toValue hc hk, bind_eq_ok]
  constructor
  · rintro ⟨time, htime, h⟩
    obtain ⟨vignette, hvignette, h⟩ := bind_eq_ok.mp h
    exact ⟨time, vignette, Timing.decode_toValue_eq_ok_iff.mp htime, decodeVignette_eq_ok_iff.mp hvignette,
      (Except.ok.inj h).symm⟩
  · rintro ⟨time, vignette, htime, hvignette, rfl⟩
    exact ⟨time, Timing.decode_toValue_eq_ok_iff.mpr htime,
      bind_eq_ok.mpr ⟨vignette, decodeVignette_eq_ok_iff.mpr hvignette, rfl⟩⟩

end ShaderConfig

/-! ## The shader -/

namespace Program

open ShaderConfig

variable {c c' : ShaderConfig}

theorem patternScale_onlyTooLarge (params : Entries Value) : OnlyTooLarge (patternScale params) := by
  unfold patternScale
  split
  · exact (Literal.onlyTooLarge (.int _) rfl).bind fun _ => .ok _
  · exact (Literal.onlyTooLarge (.float _) rfl).bind fun _ => .ok _
  · exact .ok _

theorem compose_onlyTooLarge (h : c.Accepted) : OnlyTooLarge (compose c) := by
  obtain ⟨effect, heffect⟩ := h.effect
  obtain ⟨noise, hnoise⟩ := h.noise
  rw [compose_of_kinds heffect h.name_printable hnoise]
  refine OnlyTooLarge.map ?_ _
  exact h.time.statement_onlyTooLarge.bind fun _ => (patternScale_onlyTooLarge _).bind fun _ =>
    h.resolvedVignette.source_onlyTooLarge.bind fun _ => .ok _

theorem vignette_loaded {vignette : Option Vignette} (h : Option.Rel Vignette.Loads c.vignette vignette)
    (time : Timing) : (c.loadedWith time vignette).resolvedVignette.source = c.resolvedVignette.source := by
  rw [resolvedVignette, resolvedVignette]
  cases hv : c.vignette with
  | none =>
    rw [hv] at h
    cases h
    rfl
  | some v =>
    rw [hv] at h
    cases h with
    | some hloads => exact Vignette.source_loaded hloads

/-- Loading leaves all that a source is made from. -/
theorem compose_loaded (h : c.Accepted) {time : Timing} {vignette : Option Vignette} (htime : c.time.Loads time)
    (hvignette : Option.Rel Vignette.Loads c.vignette vignette) :
    compose (c.loadedWith time vignette) = compose c := by
  obtain ⟨effect, heffect⟩ := h.effect
  obtain ⟨noise, hnoise⟩ := h.noise
  have heffect' : (c.loadedWith time vignette).effect = .str effect.tag :=
    congrArg Value.str (by rw [effectTag, heffect]; rfl)
  have hnoise' : (c.loadedWith time vignette).noise = .str noise.tag :=
    congrArg Value.str (by rw [noiseTag, hnoise]; rfl)
  have hentry : entryPoint (c.loadedWith time vignette) effect.effect = entryPoint c effect.effect := by
    rw [entryPoint, entryPoint, vignette_loaded hvignette]
    show Program.timeStatement time >>= _ = _
    rw [Timing.statement_loaded h.time htime]
    rfl
  rw [compose_of_kinds heffect' rfl hnoise', compose_of_kinds heffect h.name_printable hnoise, hentry]
  rfl

theorem exists_loaded (h : c.Accepted) {source : String} (hs : compose c = .ok source) :
    ∃ time vignette, c.time.Loads time ∧ Option.Rel Vignette.Loads c.vignette vignette := by
  obtain ⟨effect, noise, main, -, -, -, hmain, -⟩ := compose_eq_ok_iff.mp hs
  obtain ⟨time, htime, hmain⟩ := bind_eq_ok.mp hmain
  obtain ⟨scale, -, hmain⟩ := bind_eq_ok.mp hmain
  obtain ⟨vignette, hvignette, -⟩ := bind_eq_ok.mp hmain
  obtain ⟨time', htime'⟩ := Timing.exists_loads h.time htime
  cases hv : c.vignette with
  | none => exact ⟨time', none, htime', .none⟩
  | some v =>
    rw [resolvedVignette, hv] at hvignette
    obtain ⟨v', hv'⟩ := Vignette.exists_loads hvignette
    exact ⟨time', some v', htime', .some hv'⟩

/-- A configuration that is accepted gives the same source when it is saved and loaded, or an
integer is too large for a float both before and after. -/
theorem compose_reloaded (hk : c.toValue.isKeyed = true) (hv : c.verdict = .passed) :
    (∃ source, compose c = .ok source ∧ (ofValue c.toValue >>= compose) = .ok source) ∨
      compose c = .error .integerTooLarge ∧ (ofValue c.toValue >>= compose) = .error .integerTooLarge := by
  obtain ⟨entries, hentries, hc⟩ := Shape.judge_eq_passed_iff.mp hv
  cases hentries
  have h := accepted_of_config hc
  have hcompose := (compose_onlyTooLarge h).ok_or
  rcases (ofValue_onlyTooLarge hc hk).ok_or with ⟨c', hloaded⟩ | herror
  · obtain ⟨time, vignette, htime, hvignette, rfl⟩ := (ofValue_eq_ok_iff hc hk).mp hloaded
    have hsame : (ofValue c.toValue >>= compose) = compose c := by
      rw [hloaded]
      exact compose_loaded h htime hvignette
    rw [hsame]
    exact hcompose.imp (fun ⟨source, hsource⟩ => ⟨source, hsource, hsource⟩) fun herror => ⟨herror, herror⟩
  · right
    refine ⟨hcompose.resolve_left ?_, by rw [herror]; rfl⟩
    -- A source has a literal for every number, and what has a literal can be loaded.
    rintro ⟨source, hsource⟩
    obtain ⟨time, vignette, htime, hvignette⟩ := exists_loaded h hsource
    have hloaded := (ofValue_eq_ok_iff hc hk).mpr ⟨time, vignette, htime, hvignette, rfl⟩
    rw [herror] at hloaded
    cases hloaded

/-- Integers wherever a float is meant, an offset of zero among them. -/
def wholeNumbers : ShaderConfig where
  id := .int 7
  name := .str "WHOLE"
  description := .str ""
  fallbackColor := .str "#A0b1C2"
  noise := .str NoiseKind.hash.tag
  time := ⟨.int 2, .int 0⟩
  palette := ⟨[("SKY", ⟨.zero, .one, .nan⟩)]⟩
  effect := .str EffectKind.inkBloom.tag
  effectParams := [("patternScale", .int (-3)), ("depth", .bool true)]
  vignette := some ⟨.int 1, .int 0, .int 100000000000000000000000, .int (-5)⟩

theorem wholeNumbers_reloaded :
    wholeNumbers.toValue.isKeyed = true ∧ wholeNumbers.verdict = .passed ∧
      ∃ source, compose wholeNumbers = .ok source ∧ (ofValue wholeNumbers.toValue >>= compose) = .ok source := by
  have hk : wholeNumbers.toValue.isKeyed = true := by decide
  have hv : wholeNumbers.verdict = .passed := by decide +kernel
  have hcomposes : (compose wholeNumbers).toBool = true := by decide +kernel
  refine ⟨hk, hv, (compose_reloaded hk hv).resolve_right ?_⟩
  rintro ⟨herror, -⟩
  rw [herror] at hcomposes
  cases hcomposes

end Program

end ShaderLoom
