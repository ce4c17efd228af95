/-
  ShaderLoom.Proofs.Config.RoundTrip — configurations written and read again.

  Decoding spells keys in one way, turns ids and numbers into their plain kinds, fills in what is
  missing and drops what a vignette does not know. What it leaves is settled, and a settled
  configuration is written as a mapping that the schema accepts (`config_of_settled`) and that
  decodes to the same configuration (`decode_of_settled`). So decoding once is decoding for good
  (`decode_stable`).
-/

import ShaderLoom.Proofs.Config.Settled

namespace ShaderLoom

open Outcome

/-! ## Blocks -/

namespace Timing

open Entries

variable {t : Timing}

theorem time_of_settled (h : t.Settled) : Shape.Mapping Shape.Time t.toValue := by
  obtain ⟨⟨x, hx, hscale⟩, y, hy⟩ := h
  refine ⟨_, rfl, ?_, ⟨_, rfl, hx ▸ hscale⟩, ?_⟩
  · exact fun key hkey => hkey
  · rintro v hv
    cases hv
    exact hy ▸ .float y

theorem decode_of_settled (h : t.Settled) : ShaderConfig.decodeTiming (ShaderConfig.entriesOf t.toValue) = .ok t := by
  obtain ⟨scale, offset⟩ := t
  obtain ⟨⟨x, rfl, -⟩, y, rfl⟩ := h
  have hfixed : mapKeys Text.snakeCase [("scale", Value.float x), ("offset", Value.float y)] = _ :=
    mapKeys_of_fixed (by decide : ["scale", "offset"].Nodup) fun key hkey => key_fixed hkey
  rw [ShaderConfig.decodeTiming]
  show List.foldlM _ _ (mapKeys Text.snakeCase [("scale", Value.float x), ("offset", Value.float y)]) = _
  rw [hfixed]
  rfl

end Timing

namespace Palette

variable {p : Palette}

theorem colors_of_settled (h : p.Settled) : Shape.Mapping Shape.Colors p.toValue := by
  refine ⟨_, rfl, fun name v hmem => ?_⟩
  obtain ⟨⟨name, c⟩, hcolor, heq⟩ := List.mem_map.mp hmem
  cases heq
  have hchannels := h.channels _ hcolor
  simp only [Rgb.channels, List.forall_mem_cons, List.not_mem_nil, false_implies, implies_true, and_true] at hchannels
  exact ⟨h.names _ hcolor, _, _, _, rfl, hchannels⟩

theorem ofValue_of_once (h : (Entries.keys p.colors).Nodup) : ofValue p.toValue = .ok p := by
  have hcolors : p.colors.mapM (fun color => namedColor color.1 color.2.toValue) = .ok p.colors :=
    (mapM_of_ok fun color _ => rfl).trans (congrArg Except.ok (List.map_id _))
  rw [toValue, ofValue_map, List.mapM_map]
  show _ <$> p.colors.mapM (fun color => namedColor color.1 color.2.toValue) = _
  rw [hcolors]
  show Except.ok (Palette.mk (Entries.ofPairs p.colors)) = _
  rw [Entries.ofPairs_of_nodup h]

end Palette

namespace Vignette

variable {v : Vignette}

theorem numbers_of_settled (h : v.Settled) : Shape.Vignette v.toValue := by
  refine Or.inr ⟨_, rfl, fun name w hmem => ?_⟩
  obtain ⟨x, rfl⟩ := h _ hmem
  exact .float x

theorem ofOverrides_of_settled (h : v.Settled) : ofOverrides v.toValue = .ok v := by
  obtain ⟨strength, smoothness, base, boost⟩ := v
  simp only [Settled, fields, List.forall_mem_cons, List.not_mem_nil, false_implies, implies_true, and_true] at h
  obtain ⟨⟨x, rfl⟩, ⟨y, rfl⟩, ⟨z, rfl⟩, ⟨w, rfl⟩⟩ := h
  rfl

end Vignette

/-! ## The configuration -/

namespace ShaderConfig

variable {c : ShaderConfig}

def plainKeys : List String := [
  "id", "name", "description", "fallback_color", "noise", "time", "palette", "effect", "effect_params",
  "use_uniform_colors"]

theorem keys_toEntries (c : ShaderConfig) :
    Entries.keys c.toEntries = plainKeys ∨ Entries.keys c.toEntries = plainKeys ++ ["vignette"] := by
  rw [toEntries]
  cases c.vignette with
  | none => exact Or.inl rfl
  | some v => exact Or.inr rfl

theorem mapKeys_toEntries (c : ShaderConfig) : Entries.mapKeys Text.snakeCase c.toEntries = c.toEntries := by
  rcases keys_toEntries c with h | h
  · exact Entries.mapKeys_of_fixed (h ▸ by decide) (h ▸ by decide)
  · exact Entries.mapKeys_of_fixed (h ▸ by decide) (h ▸ by decide)

theorem config_of_settled (h : c.Settled) : Shape.Config c.toEntries where
  only := by
    rcases keys_toEntries c with hkeys | hkeys <;> rw [Shape.Only, hkeys] <;> decide
  id := by
    obtain ⟨n, hn⟩ := h.id
    exact ⟨_, rfl, hn ▸ .int n, n, hn ▸ Shape.liesAt_int n⟩
  name := ⟨_, rfl, h.name⟩
  description := by
    rintro v ⟨⟩
    exact h.description
  fallbackColor := by
    rintro v ⟨⟩
    exact h.fallbackColor
  noise := by
    obtain ⟨kind, hkind⟩ := h.noise
    exact ⟨_, rfl, kind, by rw [noiseTag, hkind]; rfl⟩
  time := ⟨_, rfl, Timing.time_of_settled h.time⟩
  palette := by
    refine ⟨_, rfl, _, rfl, fun key hkey => hkey, ?_⟩
    rintro v ⟨⟩
    exact Palette.colors_of_settled h.palette
  effect := by
    obtain ⟨kind, hkind⟩ := h.effect
    exact ⟨_, rfl, kind, by rw [effectTag, hkind]; rfl⟩
  effectParams := by
    rintro v ⟨⟩
    exact ⟨_, rfl, h.effectParams⟩
  vignette := by
    intro v hv
    cases hvignette : c.vignette with
    | none =>
      rw [toEntries, hvignette] at hv
      cases hv
    | some vignette =>
      rw [toEntries, hvignette] at hv
      cases hv
      exact Vignette.numbers_of_settled (h.vignette vignette hvignette)
  useUniformColors := by
    rintro v ⟨⟩
    exact h.useUniformColors

theorem field_vignette (c : ShaderConfig) :
    field "vignette" c.toEntries = (c.vignette.map Vignette.toValue).getD .null := by
  rw [toEntries]
  cases c.vignette <;> rfl

theorem decodeVignette_of_settled (h : ∀ v, c.vignette = some v → v.Settled) :
    decodeVignette (field "vignette" c.toEntries) = .ok c.vignette := by
  rw [field_vignette]
  cases hv : c.vignette with
  | none => rfl
  | some v =>
    show (Vignette.ofOverrides v.toValue >>= _) = _
    rw [Vignette.ofOverrides_of_settled (h v hv)]
    rfl

theorem decode_of_settled (h : c.Settled) : decode c.toEntries = .ok c := by
  have htime : decodeTiming (entriesOf (field "time" c.toEntries)) = .ok c.time := Timing.decode_of_settled h.time
  have hpalette : Palette.ofValue (.map (entriesOf (field "colors" (entriesOf (field "palette" c.toEntries))))) =
      .ok c.palette :=
    Palette.ofValue_of_once h.palette.once
  rw [decode, htime, hpalette, decodeVignette_of_settled h.vignette]
  obtain ⟨n, hid⟩ := h.id
  obtain ⟨name, hname, -⟩ := h.name
  obtain ⟨description, hdescription⟩ := h.description
  obtain ⟨fallbackColor, hfallbackColor, -⟩ := h.fallbackColor
  obtain ⟨noise, hnoise⟩ := h.noise
  obtain ⟨effect, heffect⟩ := h.effect
  obtain ⟨b, hb⟩ := h.useUniformColors
  cases c
  cases hid
  cases hname
  cases hdescription
  cases hfallbackColor
  cases hnoise
  cases heffect
  cases hb
  rfl

theorem ofValue_of_settled (h : c.Settled) : ofValue c.toValue = .ok c := by
  show ofNormalized (Entries.mapKeys Text.snakeCase c.toEntries) = _
  rw [mapKeys_toEntries, ofNormalized_of_shape (config_of_settled h)]
  exact decode_of_settled h

theorem settled_of_value {d : Value} (hk : d.isKeyed = true) (h : ofValue d = .ok c) : c.Settled := by
  cases d with
  | map entries =>
    obtain ⟨hshape, hdecode⟩ := decode_of_normalized h
    exact settled_of_decode hshape (field_mapKeys_isKeyed _ hk) hdecode
  | _ => cases h

/-- What a value decodes to is accepted, and written and read again it is the same. -/
theorem decode_stable {d : Value} (hk : d.isKeyed = true) (h : ofValue d = .ok c) :
    c.verdict = .passed ∧ ofValue c.toValue = .ok c := by
  have hc := settled_of_value hk h
  exact ⟨Shape.judge_eq_passed_iff.mpr ⟨_, rfl, config_of_settled hc⟩, ofValue_of_settled hc⟩

/-- Every conversion at once: capitals in keys, `5.0` for an id, integers for numbers, a nan, and a
vignette with a key that it does not know. -/
def mixedMapping : Value := .map [
  ("id", .float (.ofRatio false 5 1)),
  ("name", .str "MIXED"),
  ("fallbackColor", .str "#A0b1C2"),
  ("noise", .str "hash"),
  ("time", .map [("offset", .int (-3)), ("scale", .int 2)]),
  ("palette", .map [("colors", .map [("SKY", .list [.int 0, .int 1, .float .nan])])]),
  ("effect", .str "ink_bloom"),
  ("effectParams", .map [("patternScale", .float .nan), ("depth", .int 4)]),
  ("vignette", .map [("brightnessBoost", .int 1), ("unknown", .int 9)])]

theorem mixedMapping_stable :
    mixedMapping.isKeyed = true ∧ ∃ c, ofValue mixedMapping = .ok c ∧ c.verdict = .passed ∧
      ofValue c.toValue = .ok c := by
  have hk : mixedMapping.isKeyed = true := by decide
  have hdecodes : (ofValue mixedMapping).toBool = true := by decide +kernel
  refine ⟨hk, ?_⟩
  cases h : ofValue mixedMapping with
  | error fault =>
    rw [h] at hdecodes
    cases hdecodes
  | ok c => exact ⟨c, rfl, decode_stable hk h⟩

end ShaderConfig

end ShaderLoom
