/-
  ShaderLoom.Proofs.Config.Settled — configurations as decoding leaves them.

  Decoding turns ids into integers and numbers into floats, fills in what is missing and takes every
  key once. A configuration in that form is settled (`ShaderConfig.Settled`): every field is of one
  kind and within its bounds. What a mapping of the right shape decodes to is settled
  (`settled_of_decode`), and only such a mapping is decoded (`decode_of_normalized`).
-/

import ShaderLoom.Config.Decode
import ShaderLoom.Proofs.Outcome
import ShaderLoom.Proofs.Schema.Accepted
import ShaderLoom.Proofs.Schema.Told

namespace ShaderLoom

open Outcome

/-! ## Numbers -/

namespace Value

variable {v : Value} {x : Binary64}

theorem toNumber_int {n : Int} (h : (Value.int n).toNumber = .ok x) : Binary64.ofInt? n = some x := by
  rw [toNumber] at h
  cases hx : Binary64.ofInt? n with
  | none =>
    rw [hx] at h
    cases h
  | some y =>
    rw [hx] at h
    cases h
    rfl

theorem toNumber_scale (hv : Shape.Scale v) (h : v.toNumber = .ok x) : Shape.Scale (.float x) := by
  obtain ⟨hnumber, hpositive⟩ := hv
  cases hnumber with
  | float =>
    cases h
    exact ⟨.float _, hpositive⟩
  | int n =>
    have hn : 0 < n := by
      have hlies := Shape.liesAt_int n
      rw [Shape.below_of_liesAt hlies, Shape.liesAt_of_liesAt hlies] at hpositive
      omega
    obtain ⟨u, hu, hx⟩ := Binary64.exists_units_of_ofInt? hn (toNumber_int h)
    refine ⟨.float x, ?_⟩
    rintro (⟨e, he, hlt⟩ | hzero)
    · cases hx.symm.trans he
      have := Extent.at_lt_ofInt_zero.mp hlt
      omega
    · have := Extent.at.inj (Option.some.inj (hx.symm.trans hzero))
      omega

theorem toNumber_channel (hv : Shape.Channel v) (h : v.toNumber = .ok x) : Shape.Channel (.float x) := by
  obtain ⟨hnumber, hleast, hgreatest⟩ := hv
  cases hnumber with
  | float =>
    cases h
    exact ⟨.float _, hleast, hgreatest⟩
  | int n =>
    have hlies := Shape.liesAt_int n
    have hn : n = 0 ∨ n = 1 := by
      rw [Shape.below_of_liesAt hlies] at hleast
      rw [Shape.above_of_liesAt hlies] at hgreatest
      omega
    have hx : Shape.LiesAt (.float x) n := by
      have := toNumber_int h
      rcases hn with rfl | rfl
      · rw [Binary64.ofInt?_zero] at this
        exact Option.some.inj this ▸ Binary64.extent?_zero
      · rw [Binary64.ofInt?_one] at this
        exact Option.some.inj this ▸ Binary64.extent?_one
    rw [Shape.below_of_liesAt hlies, ← Shape.below_of_liesAt hx] at hleast
    rw [Shape.above_of_liesAt hlies, ← Shape.above_of_liesAt hx] at hgreatest
    exact ⟨.float x, hleast, hgreatest⟩

theorem wholeNumber?_id (hv : Shape.IsId v) : ∃ n : Nat, v.wholeNumber? = some (n : Int) := by
  obtain ⟨hnumber, n, hn⟩ := hv
  cases hnumber with
  | int m =>
    rw [Shape.liesAt_of_liesAt (Shape.liesAt_int m)] at hn
    exact ⟨n, hn ▸ rfl⟩
  | float x => exact ⟨n, Binary64.toInt?_eq_some_iff.mpr hn⟩

end Value

/-! ## Settled parts -/

structure Timing.Settled (t : Timing) : Prop where
  scale : ∃ x, t.scale = .float x ∧ Shape.Scale (.float x)
  offset : ∃ x, t.offset = .float x

structure Palette.Settled (p : Palette) : Prop where
  once : (Entries.keys p.colors).Nodup
  names : ∀ color ∈ p.colors, Shape.Identifier color.1
  channels : ∀ color ∈ p.colors, ∀ x ∈ color.2.channels, Shape.Channel (.float x)

def Vignette.Settled (v : Vignette) : Prop := ∀ field ∈ v.fields, ∃ x, field.2 = .float x

/-- Every field of one kind and within its bounds. -/
structure ShaderConfig.Settled (c : ShaderConfig) : Prop where
  id : ∃ n : Nat, c.id = .int n
  name : ∃ s, c.name = .str s ∧ s ≠ ""
  description : ∃ s, c.description = .str s
  fallbackColor : ∃ s, c.fallbackColor = .str s ∧ Shape.HexColor s
  noise : ∃ kind : NoiseKind, c.noise = .str kind.tag
  time : c.time.Settled
  palette : c.palette.Settled
  effect : ∃ kind : EffectKind, c.effect = .str kind.tag
  effectParams : Shape.Each (fun _ => Shape.IsParameter) c.effectParams
  vignette : ∀ v, c.vignette = some v → v.Settled
  useUniformColors : ∃ b, c.useUniformColors = .bool b

/-! ## Decoded blocks -/

namespace Timing

open Entries

theorem standard_settled : ({} : Timing).Settled where
  scale := by
    have hpositive : Schema.isAtMost (.float (.ofRatio false 25 100000)) (.int 0) = false := by decide +kernel
    exact ⟨_, rfl, .float _, (Shape.not_atMost_iff (Shape.liesAt_int 0)).mp hpositive⟩
  offset := ⟨_, rfl⟩

theorem key_fixed {key : String} (h : key ∈ ["scale", "offset"]) : Text.snakeCase key = key := by
  simp only [List.mem_cons, List.not_mem_nil, or_false] at h
  rcases h with rfl | rfl <;> decide

theorem settled_of_decode {block : Entries Value} {t : Timing} (hb : Shape.Time block) (hn : (keys block).Nodup)
    (h : ShaderConfig.decodeTiming block = .ok t) : t.Settled := by
  rw [ShaderConfig.decodeTiming, mapKeys_of_fixed hn fun key hkey => key_fixed (hb.only key hkey)] at h
  refine foldlM_induction h standard_settled ?_
  rintro ⟨key, value⟩ hmem t t' ht hput
  obtain ⟨x, hx, hput⟩ := bind_eq_ok.mp hput
  have hget := get?_of_mem hn hmem
  have hkey := hb.only key (List.mem_map_of_mem hmem)
  simp only [List.mem_cons, List.not_mem_nil, or_false] at hkey
  rcases hkey with rfl | rfl
  · cases hput
    obtain ⟨v, hv, hscale⟩ := hb.scale
    cases hget.symm.trans hv
    exact { ht with scale := ⟨x, rfl, Value.toNumber_scale hscale hx⟩ }
  · cases hput
    exact { ht with offset := ⟨x, rfl⟩ }

end Timing

theorem Rgb.channels_of_color {v : Value} {c : Rgb} (hv : Shape.Color v) (h : Rgb.ofValue v = .ok c) :
    ∀ x ∈ c.channels, Shape.Channel (.float x) := by
  obtain ⟨r, g, b, rfl, hr, hg, hb⟩ := hv
  obtain ⟨x, hx, h⟩ := bind_eq_ok.mp (show r.toNumber >>= _ = _ from h)
  obtain ⟨y, hy, h⟩ := bind_eq_ok.mp h
  obtain ⟨z, hz, h⟩ := bind_eq_ok.mp h
  cases h
  simp only [Rgb.channels, List.forall_mem_cons, List.not_mem_nil, false_implies, implies_true, and_true]
  exact ⟨Value.toNumber_channel hr hx, Value.toNumber_channel hg hy, Value.toNumber_channel hb hz⟩

namespace Palette

/-- One color under its name. -/
def namedColor (name : String) (v : Value) : Except Fault (String × Rgb) := return (name, ← Rgb.ofValue v)

theorem ofValue_map (colors : Entries Value) :
    ofValue (.map colors) =
      (fun found => ⟨Entries.ofPairs found⟩) <$> colors.mapM fun color => namedColor color.1 color.2 := by
  rw [ofValue]
  show (List.mapM (m := Except Fault) _ (colors.map _) >>= _) = _
  rw [List.mapM_map]
  rfl

theorem settled_of_value {colors : Entries Value} {p : Palette} (hc : Shape.Colors colors)
    (h : ofValue (.map colors) = .ok p) : p.Settled := by
  rw [ofValue_map] at h
  obtain ⟨found, hfound, h⟩ := bind_eq_ok.mp h
  cases h
  have hcolors : ∀ color ∈ found, Shape.Identifier color.1 ∧
      ∀ x ∈ color.2.channels, Shape.Channel (.float x) := by
    intro color hcolor
    obtain ⟨⟨name, v⟩, hv, hnamed⟩ := mapM_eq_ok hfound color hcolor
    obtain ⟨c, hrgb, hnamed⟩ := bind_eq_ok.mp hnamed
    cases hnamed
    exact ⟨(hc name v hv).1, Rgb.channels_of_color (hc name v hv).2 hrgb⟩
  exact {
    once := Entries.nodup_keys_ofPairs found
    names := fun color hcolor => (hcolors color (Entries.mem_ofPairs hcolor)).1
    channels := fun color hcolor => (hcolors color (Entries.mem_ofPairs hcolor)).2 }

end Palette

namespace Vignette

theorem standard_settled : standard.Settled := by
  intro field hfield
  simp only [fields, List.mem_cons, List.not_mem_nil, or_false] at hfield
  rcases hfield with rfl | rfl | rfl | rfl <;> exact ⟨_, rfl⟩

theorem settled_of_override {v v' : Vignette} {key : String} {value : Value} (hv : v.Settled)
    (h : v.override key value = .ok v') : v'.Settled := by
  rw [override] at h
  cases hput : v.setter? (Text.snakeCase key) with
  | none =>
    rw [hput] at h
    cases h
    exact hv
  | some put =>
    rw [hput] at h
    obtain ⟨x, -, h⟩ := bind_eq_ok.mp h
    cases h
    simp only [Settled, fields, List.forall_mem_cons, List.not_mem_nil, false_implies, implies_true, and_true] at hv ⊢
    obtain ⟨hstrength, hsmoothness, hbase, hboost⟩ := hv
    -- Which of the four is put is read off the name.
    unfold setter? at hput
    split at hput <;> cases hput
    · exact ⟨⟨x, rfl⟩, hsmoothness, hbase, hboost⟩
    · exact ⟨hstrength, ⟨x, rfl⟩, hbase, hboost⟩
    · exact ⟨hstrength, hsmoothness, ⟨x, rfl⟩, hboost⟩
    · exact ⟨hstrength, hsmoothness, hbase, ⟨x, rfl⟩⟩

theorem settled_of_overrides {overrides : Value} {v : Vignette} (h : ofOverrides overrides = .ok v) : v.Settled := by
  unfold ofOverrides at h
  split at h
  · split at h
    · exact foldlM_induction h standard_settled fun _ _ _ _ => settled_of_override
    · cases h
  · cases h
    exact standard_settled

end Vignette

/-! ## The configuration -/

namespace ShaderConfig

variable {entries : Entries Value} {P : Value → Prop} {key : String}

theorem field_of_has (h : Shape.Has key P entries) : P (field key entries) := by
  obtain ⟨v, hv, h⟩ := h
  rwa [field, hv]

theorem fieldOr_of_mayHave (standard : Value) (h : Shape.MayHave key P entries) (hs : P standard) :
    P (fieldOr key standard entries) := by
  rw [fieldOr]
  cases hv : Entries.get? key entries with
  | none => exact hs
  | some v => exact h v hv

theorem entriesOf_of_mapping {Q : Entries Value → Prop} {v : Value} (h : Shape.Mapping Q v) : Q (entriesOf v) := by
  obtain ⟨entries, rfl, h⟩ := h
  exact h

theorem field_isKeyed (h : ∀ p ∈ entries, p.2.isKeyed = true) : (field key entries).isKeyed = true := by
  rw [field]
  cases hv : Entries.get? key entries with
  | none => rfl
  | some v => exact h _ (Entries.mem_of_get? hv)

/-- Respelling keys leaves the values as they are. -/
theorem field_mapKeys_isKeyed (f : String → String) (h : (Value.map entries).isKeyed = true) :
    (field key (Entries.mapKeys f entries)).isKeyed = true := by
  refine field_isKeyed fun p hp => ?_
  obtain ⟨q, hq, rfl⟩ := List.mem_map.mp (Entries.mem_ofPairs hp)
  exact (Value.isKeyed_map.mp h).2 q hq

theorem keys_entriesOf_nodup {v : Value} (h : v.isKeyed = true) : (Entries.keys (entriesOf v)).Nodup := by
  cases v with
  | map entries => exact (Value.isKeyed_map.mp h).1
  | _ => exact List.nodup_nil

theorem entriesOf_of_mayHave {Q : Entries Value → Prop} (h : Shape.MayHave key (Shape.Mapping Q) entries)
    (hempty : Q []) : Q (entriesOf (field key entries)) := by
  rw [field]
  cases hv : Entries.get? key entries with
  | none => exact hempty
  | some v => exact entriesOf_of_mapping (h v hv)

theorem settled_of_decodeVignette {overrides : Value} {vignette : Option Vignette}
    (h : decodeVignette overrides = .ok vignette) : ∀ v, vignette = some v → v.Settled := by
  rintro v rfl
  unfold decodeVignette at h
  split at h
  · cases h
  · obtain ⟨v', hv', h⟩ := bind_eq_ok.mp h
    cases h
    exact Vignette.settled_of_overrides hv'

/-- What is decoded from entries of the right shape is settled. -/
theorem settled_of_decode {c : ShaderConfig} (hs : Shape.Config entries)
    (hk : (field "time" entries).isKeyed = true) (h : decode entries = .ok c) : c.Settled := by
  obtain ⟨time, htime, h⟩ := bind_eq_ok.mp h
  obtain ⟨palette, hpalette, h⟩ := bind_eq_ok.mp h
  obtain ⟨vignette, hvignette, h⟩ := bind_eq_ok.mp h
  cases h
  have hid := Value.wholeNumber?_id (field_of_has hs.id)
  have hname := field_of_has hs.name
  have hcolor := fieldOr_of_mayHave (.str "#000000") hs.fallbackColor
    ⟨_, rfl, Shape.hexColor_iff.mp (by decide)⟩
  exact {
    id := by
      obtain ⟨n, hn⟩ := hid
      exact ⟨n, by rw [hn]; rfl⟩
    name := by
      obtain ⟨s, hs, hne⟩ := hname
      exact ⟨s, by rw [hs]; rfl, hne⟩
    description := ⟨_, rfl⟩
    fallbackColor := by
      obtain ⟨s, hs, hform⟩ := hcolor
      exact ⟨s, by rw [hs]; rfl, hform⟩
    noise := field_of_has hs.noise
    time := Timing.settled_of_decode (entriesOf_of_mapping (field_of_has hs.time)) (keys_entriesOf_nodup hk) htime
    palette :=
      have hblock := entriesOf_of_mapping (field_of_has hs.palette)
      Palette.settled_of_value (entriesOf_of_mayHave hblock.colors Shape.each_nil) hpalette
    effect := field_of_has hs.effect
    effectParams := entriesOf_of_mayHave hs.effectParams Shape.each_nil
    vignette := settled_of_decodeVignette hvignette
    useUniformColors := ⟨_, rfl⟩ }

/-! ## What the schema has to say first -/

/-- The fault of a rejected configuration is told as it is: where its problems are told, its name can be. -/
theorem ofNormalized_eq (entries : Entries Value) : ofNormalized entries = (do
    let verdict ← ShaderLoom.validate (.map entries)
    if verdict.ok then decode entries else .error (.invalidConfig (field "name" entries) verdict.problems)) := by
  rw [ofNormalized]
  cases h : ShaderLoom.validate (.map entries) with
  | error fault => rfl
  | ok verdict =>
    have htold : (Fault.invalidConfig (field "name" entries) verdict.problems).told = .invalidConfig _ verdict.problems :=
      Fault.told_of_printable fun v hv => List.mem_singleton.mp hv ▸ printable_name h
    show (if verdict.ok then decode entries else .error (Fault.told _)) = _
    rw [htold]
    rfl

theorem ofNormalized_of_shape (h : Shape.Config entries) : ofNormalized entries = decode entries := by
  rw [ofNormalized_eq, validate_of_passed (Shape.judge_eq_passed_iff.mpr ⟨_, rfl, h⟩)]
  rfl

theorem decode_of_normalized {c : ShaderConfig} (h : ofNormalized entries = .ok c) :
    Shape.Config entries ∧ decode entries = .ok c := by
  rw [ofNormalized_eq] at h
  obtain ⟨verdict, hverdict, h⟩ := bind_eq_ok.mp h
  obtain ⟨rfl, -⟩ := validate_eq_ok_iff.mp hverdict
  split at h
  · rename_i hok
    exact ⟨Shape.configProblems_eq_nil_iff.mp ((judge_map entries).2.mp hok), h⟩
  · cases h

end ShaderConfig

end ShaderLoom
