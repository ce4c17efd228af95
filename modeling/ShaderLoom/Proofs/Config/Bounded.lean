/-
  ShaderLoom.Proofs.Config.Bounded — the bounds that the numbers of a read configuration keep.

  The schema bounds a channel by zero and one and a scale from below, each by a comparison that must
  not hold. A nan lies nowhere, so no comparison holds of it, and nothing bounds a scale from above.
  What is read is therefore a channel between zero and one or nan, and a scale that is above zero,
  nan or infinite (`inUnitRange_of_channel`, `positive_of_scale`). The bounds are kept in full
  (`ShaderConfig.Bounded`) exactly when the mapping has no nan for a channel and neither nan nor an
  infinite number for its scale (`bounded_iff`).
-/

import ShaderLoom.Proofs.Config.Converted

namespace ShaderLoom

open Outcome

/-! ## Numbers within bounds -/

namespace Binary64

/-- At least zero and at most one. -/
def InUnitRange (x : Binary64) : Prop := ∃ u : Int, x.extent? = some (.at u) ∧ 0 ≤ u ∧ u ≤ perOne

/-- Finite and above zero. -/
def IsPositive (x : Binary64) : Prop := ∃ u : Int, x.extent? = some (.at u) ∧ 0 < u

variable {x : Binary64}

theorem extent?_eq_none_iff : x.extent? = none ↔ x = .nan := by
  cases x with
  | nan => exact ⟨fun _ => rfl, fun _ => rfl⟩
  | infinite negative => cases negative <;> simp [extent?]
  | finite negative p => cases negative <;> simp [extent?]

theorem extent?_eq_above_iff : x.extent? = some .above ↔ x = .infinite false := by
  cases x with
  | nan => simp [extent?]
  | infinite negative => cases negative <;> simp [extent?]
  | finite negative p => cases negative <;> simp [extent?]

theorem not_inUnitRange_nan : ¬InUnitRange .nan := fun ⟨_, h, _⟩ => nomatch h

theorem inUnitRange_of_channel (h : Shape.Channel (.float x)) : x = .nan ∨ x.InUnitRange := by
  obtain ⟨-, hleast, hgreatest⟩ := h
  cases hx : x.extent? with
  | none => exact Or.inl (extent?_eq_none_iff.mp hx)
  | some e =>
    cases e with
    | below => exact absurd ⟨.below, hx, rfl⟩ hleast
    | above => exact absurd ⟨.above, hx, rfl⟩ hgreatest
    | «at» u =>
      refine Or.inr ⟨u, hx, Int.not_lt.mp fun hlow => hleast ?_, Int.not_lt.mp fun hhigh => hgreatest ?_⟩
      · exact ⟨.at u, hx, Extent.at_lt_ofInt_zero.mpr hlow⟩
      · refine ⟨.at u, hx, decide_eq_true ?_⟩
        rwa [Int.one_mul]

theorem positive_of_scale (h : Shape.Scale (.float x)) : x = .nan ∨ x = .infinite false ∨ x.IsPositive := by
  obtain ⟨-, hpositive⟩ := h
  cases hx : x.extent? with
  | none => exact Or.inl (extent?_eq_none_iff.mp hx)
  | some e =>
    cases e with
    | below => exact absurd (Or.inl ⟨.below, hx, rfl⟩) hpositive
    | above => exact Or.inr (Or.inl (extent?_eq_above_iff.mp hx))
    | «at» u =>
      have hlow : ¬u < 0 := fun hlow => hpositive (Or.inl ⟨.at u, hx, Extent.at_lt_ofInt_zero.mpr hlow⟩)
      have hzero : u ≠ 0 := by
        rintro rfl
        exact hpositive (Or.inr (hx.trans (by rw [Extent.ofInt, Int.zero_mul])))
      exact Or.inr (Or.inr ⟨u, hx, by omega⟩)

theorem not_positive_of_not_finite (h : x = .nan ∨ x = .infinite false) : ¬x.IsPositive := by
  rintro ⟨u, hu, -⟩
  rcases h with rfl | rfl <;> cases hu

end Binary64

/-- Integers convert to finite numbers, so what is not finite was given as it is. -/
theorem Value.eq_float_of_not_finite {v : Value} {x : Binary64} (hv : Shape.IsNumber v) (h : v.toNumber = .ok x)
    (hx : ∀ negative p, x ≠ .finite negative p) : v = .float x := by
  cases hv with
  | float y => exact congrArg Value.float (Except.ok.inj h)
  | int n =>
    obtain ⟨p, hp, -⟩ := Binary64.ofInt?_eq_some (Value.toNumber_int h)
    exact absurd hp (hx _ p)

theorem Value.toNumber_eq_nan_iff {v : Value} {x : Binary64} (hv : Shape.IsNumber v) (h : v.toNumber = .ok x) :
    x = .nan ↔ v = .float .nan := by
  constructor
  · rintro rfl
    exact eq_float_of_not_finite hv h nofun
  · rintro rfl
    exact (Except.ok.inj h).symm

/-! ## Colors -/

/-- A color has a nan for a channel exactly when it was given one. -/
theorem Rgb.nan_mem_channels_iff {items : List Value} {c : Rgb} (hv : Shape.Color (.list items))
    (h : Rgb.ofValue (.list items) = .ok c) : .nan ∈ c.channels ↔ .float .nan ∈ items := by
  obtain ⟨r, g, b, heq, hr, hg, hb⟩ := hv
  cases heq
  obtain ⟨x, hx, h⟩ := bind_eq_ok.mp (show r.toNumber >>= _ = _ from h)
  obtain ⟨y, hy, h⟩ := bind_eq_ok.mp h
  obtain ⟨z, hz, h⟩ := bind_eq_ok.mp h
  cases h
  have hred := Value.toNumber_eq_nan_iff hr.number hx
  have hgreen := Value.toNumber_eq_nan_iff hg.number hy
  have hblue := Value.toNumber_eq_nan_iff hb.number hz
  simp only [Rgb.channels, List.mem_cons, List.not_mem_nil, or_false, eq_comm, hred, hgreen, hblue]

theorem Palette.keys_found {colors : Entries Value} {found : Entries Rgb}
    (h : colors.mapM (fun color => namedColor color.1 color.2) = .ok found) :
    Entries.keys found = Entries.keys colors := by
  induction colors generalizing found with
  | nil =>
    cases h
    rfl
  | cons color colors ih =>
    rw [List.mapM_cons] at h
    obtain ⟨named, hnamed, h⟩ := bind_eq_ok.mp h
    obtain ⟨rest, hrest, h⟩ := bind_eq_ok.mp h
    cases h
    obtain ⟨c, -, hnamed⟩ := bind_eq_ok.mp hnamed
    cases hnamed
    exact congrArg (color.1 :: ·) (ih hrest)

/-- Under distinct names the colors are those of the entries, name by name. -/
theorem Palette.exists_found {colors : Entries Value} {p : Palette} (hn : (Entries.keys colors).Nodup)
    (h : Palette.ofValue (.map colors) = .ok p) :
    (∀ color ∈ p.colors, ∃ v, (color.1, v) ∈ colors ∧ Rgb.ofValue v = .ok color.2) ∧
      ∀ name v, (name, v) ∈ colors → ∃ c, (name, c) ∈ p.colors ∧ Rgb.ofValue v = .ok c := by
  rw [ofValue_map] at h
  obtain ⟨found, hfound, h⟩ := bind_eq_ok.mp h
  cases h
  have hpalette : Entries.ofPairs found = found := Entries.ofPairs_of_nodup (keys_found hfound ▸ hn)
  show (∀ color ∈ Entries.ofPairs found, _) ∧ ∀ name v, _ → ∃ c, _ ∈ Entries.ofPairs found ∧ _
  rw [hpalette]
  constructor
  · intro color hcolor
    obtain ⟨⟨name, v⟩, hv, hnamed⟩ := mapM_eq_ok hfound color hcolor
    obtain ⟨c, hc, hnamed⟩ := bind_eq_ok.mp hnamed
    cases hnamed
    exact ⟨v, hv, hc⟩
  · intro name v hv
    obtain ⟨color, hcolor, hnamed⟩ := mem_of_mapM hfound _ hv
    obtain ⟨c, hc, hnamed⟩ := bind_eq_ok.mp hnamed
    cases hnamed
    exact ⟨c, hcolor, hc⟩

/-! ## Timings -/

/-- The scale of a timing is the number of the entry for it: the entries before it leave the
standard scale and those behind it are not for the scale. -/
theorem Timing.scale_of_decode {block : Entries Value} {t : Timing} (hb : Shape.Time block)
    (hn : (Entries.keys block).Nodup) (h : ShaderConfig.decodeTiming block = .ok t) :
    ∃ v x, Entries.get? "scale" block = some v ∧ Shape.IsNumber v ∧ v.toNumber = .ok x ∧ t.scale = .float x := by
  obtain ⟨v, hv, hscale⟩ := hb.scale
  obtain ⟨before, behind, hblock⟩ := List.append_of_mem (Entries.mem_of_get? hv)
  have hother : ∀ p ∈ behind, p.1 = "offset" := by
    intro p hp
    have hkey := hb.only p.1 (List.mem_map_of_mem (hblock ▸ List.mem_append_right _ (List.mem_cons_of_mem _ hp)))
    rw [hblock, Entries.keys, List.map_append, List.map_cons, List.nodup_append] at hn
    have hne : p.1 ≠ "scale" := fun heq => (List.nodup_cons.mp hn.2.1).1 (List.mem_map.mpr ⟨p, hp, heq⟩)
    simpa [hne] using hkey
  rw [decode_eq hb hn, hblock, List.foldlM_append] at h
  obtain ⟨t₁, -, h⟩ := bind_eq_ok.mp h
  rw [List.foldlM_cons] at h
  obtain ⟨t₂, hput, h⟩ := bind_eq_ok.mp h
  obtain ⟨x, hx, hput⟩ := bind_eq_ok.mp hput
  cases hput
  refine ⟨v, x, hv, hscale.number, hx, foldlM_induction (P := fun t => t.scale = .float x) h rfl ?_⟩
  rintro ⟨key, value⟩ hp t t' ht hput
  obtain rfl : key = "offset" := hother _ hp
  obtain ⟨y, -, hput⟩ := bind_eq_ok.mp hput
  cases hput
  exact ht

/-! ## The configuration -/

namespace ShaderConfig

variable {c : ShaderConfig} {entries d : Entries Value}

/-- The numeric bounds of the data model. -/
structure Bounded (c : ShaderConfig) : Prop where
  channels : ∀ color ∈ c.palette.colors, ∀ x ∈ color.2.channels, x.InUnitRange
  scale : ∃ x, c.time.scale = .float x ∧ x.IsPositive

def colorEntries (entries : Entries Value) : Entries Value :=
  entriesOf (field "colors" (entriesOf (field "palette" entries)))

def scaleEntry (entries : Entries Value) : Value := field "scale" (entriesOf (field "time" entries))

/-- No nan for a channel, and neither nan nor an infinite number for the scale. -/
structure Placed (entries : Entries Value) : Prop where
  channels : ∀ name items, (name, .list items) ∈ colorEntries entries → .float .nan ∉ items
  scale : scaleEntry entries ≠ .float .nan ∧ scaleEntry entries ≠ .float (.infinite false)

theorem channels_bounded_iff (h : Shape.Config entries) (hn : (Entries.keys (colorEntries entries)).Nodup)
    {p : Palette} (hp : Palette.ofValue (.map (colorEntries entries)) = .ok p) :
    (∀ color ∈ p.colors, ∀ x ∈ color.2.channels, x.InUnitRange) ↔
      ∀ name items, (name, .list items) ∈ colorEntries entries → .float .nan ∉ items := by
  have hcolors : Shape.Colors (colorEntries entries) :=
    entriesOf_of_mayHave (entriesOf_of_mapping (field_of_has h.palette)).colors Shape.each_nil
  obtain ⟨hentry, hfound⟩ := Palette.exists_found hn hp
  constructor
  · intro hbounded name items hmem hnan
    obtain ⟨c, hc, hread⟩ := hfound name _ hmem
    have hchannel := (Rgb.nan_mem_channels_iff (hcolors name _ hmem).2 hread).mpr hnan
    exact Binary64.not_inUnitRange_nan (hbounded _ hc _ hchannel)
  · intro hnone color hcolor x hx
    obtain ⟨v, hmem, hread⟩ := hentry color hcolor
    have hv := (hcolors color.1 v hmem).2
    refine (Binary64.inUnitRange_of_channel (Rgb.channels_of_color hv hread x hx)).resolve_left ?_
    rintro rfl
    obtain ⟨items, rfl⟩ : ∃ items, v = .list items := by
      obtain ⟨r, g, b, hlist, -⟩ := hv
      exact ⟨_, hlist⟩
    exact hnone _ _ hmem ((Rgb.nan_mem_channels_iff hv hread).mp hx)

theorem scale_positive_iff (h : Shape.Config entries) (hk : (field "time" entries).isKeyed = true) {t : Timing}
    (ht : decodeTiming (entriesOf (field "time" entries)) = .ok t) :
    (∃ x, t.scale = .float x ∧ x.IsPositive) ↔
      scaleEntry entries ≠ .float .nan ∧ scaleEntry entries ≠ .float (.infinite false) := by
  have hblock := entriesOf_of_mapping (field_of_has h.time)
  obtain ⟨v, x, hv, hnumber, hx, hscale⟩ := Timing.scale_of_decode hblock (keys_entriesOf_nodup hk) ht
  have hentry : scaleEntry entries = v := by rw [scaleEntry, field, hv]; rfl
  have hpositive : (∃ y, t.scale = .float y ∧ y.IsPositive) ↔ x.IsPositive := by
    rw [hscale]
    constructor
    · rintro ⟨y, hy, h⟩
      exact Value.float.inj hy ▸ h
    · exact fun h => ⟨x, rfl, h⟩
  rw [hpositive, hentry]
  constructor
  · intro hx'
    refine ⟨?_, ?_⟩ <;> rintro rfl <;> cases hx
    · exact Binary64.not_positive_of_not_finite (Or.inl rfl) hx'
    · exact Binary64.not_positive_of_not_finite (Or.inr rfl) hx'
  · rintro ⟨hnan, hinfinite⟩
    have hshape := (Timing.settled_of_decode hblock (keys_entriesOf_nodup hk) ht).scale
    rw [hscale] at hshape
    obtain ⟨y, hy, hshape⟩ := hshape
    cases hy
    rcases Binary64.positive_of_scale hshape with rfl | rfl | hx'
    · exact absurd (Value.eq_float_of_not_finite hnumber hx (by simp)) hnan
    · exact absurd (Value.eq_float_of_not_finite hnumber hx (by simp)) hinfinite
    · exact hx'

theorem entriesOf_isKeyed {v : Value} (h : v.isKeyed = true) : ∀ p ∈ entriesOf v, p.2.isKeyed = true := by
  cases v with
  | map entries => exact (Value.isKeyed_map.mp h).2
  | _ => exact fun p hp => absurd hp List.not_mem_nil

theorem bounded_iff_placed (hk : (Value.map d).isKeyed = true) (h : ofValue (.map d) = .ok c) :
    c.Bounded ↔ Placed (respelled d) := by
  obtain ⟨hc, hdecode⟩ := decode_of_normalized h
  obtain ⟨time, htime, hdecode⟩ := bind_eq_ok.mp hdecode
  obtain ⟨palette, hpalette, hdecode⟩ := bind_eq_ok.mp hdecode
  obtain ⟨vignette, -, hdecode⟩ := bind_eq_ok.mp hdecode
  cases hdecode
  have hcolors : (Entries.keys (colorEntries (respelled d))).Nodup :=
    keys_entriesOf_nodup (field_isKeyed (entriesOf_isKeyed (field_mapKeys_isKeyed _ hk)))
  have hchannels := channels_bounded_iff hc hcolors hpalette
  have hscale := scale_positive_iff hc (field_mapKeys_isKeyed _ hk) htime
  exact ⟨fun hb => ⟨hchannels.mp hb.channels, hscale.mp hb.scale⟩,
    fun hp => ⟨hchannels.mpr hp.channels, hscale.mpr hp.scale⟩⟩

/-- A channel that is read lies between zero and one or is nan, a scale lies above zero or is nan or
infinite, and the bounds are kept exactly when nothing of the latter kind was given. -/
theorem bounded_iff (hk : (Value.map d).isKeyed = true) (h : ofValue (.map d) = .ok c) :
    (∀ color ∈ c.palette.colors, ∀ x ∈ color.2.channels, x = .nan ∨ x.InUnitRange) ∧
      (∃ x, c.time.scale = .float x ∧ (x = .nan ∨ x = .infinite false ∨ x.IsPositive)) ∧
      (c.Bounded ↔ Placed (respelled d)) := by
  have hsettled := settled_of_value hk h
  refine ⟨fun color hcolor x hx => ?_, ?_, bounded_iff_placed hk h⟩
  · exact Binary64.inUnitRange_of_channel (hsettled.palette.channels color hcolor x hx)
  · obtain ⟨x, hx, hscale⟩ := hsettled.time.scale
    exact ⟨x, hx, Binary64.positive_of_scale hscale⟩

theorem colorEntries_sample (scale channel : Value) :
    colorEntries (respelled (sample scale channel)) = [("SKY", .list [channel, .int 0, .float .one])] := rfl

theorem scaleEntry_sample (scale channel : Value) : scaleEntry (respelled (sample scale channel)) = scale := rfl

theorem sample_bounded :
    (Value.map (sample (.int 2) (.int 1))).isKeyed = true ∧
      ∃ c, ofValue (.map (sample (.int 2) (.int 1))) = .ok c ∧ c.Bounded := by
  have hk : (Value.map (sample (.int 2) (.int 1))).isKeyed = true := by decide
  have hreads : (ofValue (.map (sample (.int 2) (.int 1)))).toBool = true := by decide +kernel
  obtain ⟨c, hc⟩ := exists_ok hreads
  refine ⟨hk, c, hc, (bounded_iff hk hc).2.2.mpr ⟨fun name items hmem => ?_, ?_⟩⟩
  · rw [colorEntries_sample, List.mem_singleton] at hmem
    cases hmem
    have hone : Binary64.nan ≠ .one := by decide +kernel
    simp [hone]
  · rw [scaleEntry_sample]
    exact ⟨nofun, nofun⟩

/-- A nan for a channel is read, and so is an infinite scale. -/
theorem unbounded_read :
    (∃ c, ofValue (.map (sample (.int 2) (.float .nan))) = .ok c ∧ ¬c.Bounded) ∧
      ∃ c, ofValue (.map (sample (.float (.infinite false)) (.int 1))) = .ok c ∧ ¬c.Bounded := by
  have hchannel : (ofValue (.map (sample (.int 2) (.float .nan)))).toBool = true := by decide +kernel
  have hscale : (ofValue (.map (sample (.float (.infinite false)) (.int 1)))).toBool = true := by decide +kernel
  obtain ⟨c, hc⟩ := exists_ok hchannel
  obtain ⟨c', hc'⟩ := exists_ok hscale
  refine ⟨⟨c, hc, fun hb => ?_⟩, c', hc', fun hb => ?_⟩
  · have hplaced := (bounded_iff_placed (by decide) hc).mp hb
    exact hplaced.channels "SKY" _ (by rw [colorEntries_sample]; exact List.mem_singleton_self _) List.mem_cons_self
  · have hplaced := (bounded_iff_placed (by decide) hc').mp hb
    exact hplaced.scale.2 (scaleEntry_sample _ _)

end ShaderConfig

end ShaderLoom
