/-
  ShaderLoom.Proofs.Config.Converted — what is read from a mapping against what the schema says of it.

  A mapping that the schema rejects is rejected with the problems that the schema lists. One that it
  accepts is decoded field by field; names, tags, ids and colors always convert, since the schema
  bounds them, but the numbers of the time block and of the vignette may be integers of any size
  (`converted`). Each step of decoding goes through unless one of its numbers is too large for a
  float, and then that is its fault (`Converts`); so does all of it (`ofValue_outcome`).
-/

import Mathlib.Algebra.Group.Int.Defs
import ShaderLoom.Proofs.Config.Reloaded

namespace ShaderLoom

open Outcome

/-- An integer past the finite floats. -/
def Value.TooLarge : Value → Prop
  | .int n => Binary64.ofInt? n = none
  | _ => False

instance : (v : Value) → Decidable v.TooLarge
  | .int n => inferInstanceAs (Decidable (Binary64.ofInt? n = none))
  | .null | .bool _ | .float _ | .str _ | .list _ | .map _ => inferInstanceAs (Decidable False)

/-- Goes through, or fails for an integer too large for a float: `large` says which of the two. -/
inductive Converts {α : Type} (x : Except Fault α) (large : Prop) : Prop where
  | read (a : α) (h : x = .ok a) (small : ¬large)
  | failed (h : x = .error .integerTooLarge) (tooLarge : large)

namespace Converts

variable {α β : Type} {x : Except Fault α} {p q : Prop}

theorem congr (h : Converts x p) (hpq : p ↔ q) : Converts x q := by
  cases h with
  | read a h small => exact .read a h (mt hpq.mpr small)
  | failed h tooLarge => exact .failed h (hpq.mp tooLarge)

theorem bind {f : α → Except Fault β} (hx : Converts x p) (hf : ∀ a, Converts (f a) q) : Converts (x >>= f) (p ∨ q) := by
  cases hx with
  | failed h tooLarge =>
    subst h
    exact .failed rfl (Or.inl tooLarge)
  | read a h small =>
    subst h
    cases hf a with
    | read b h small' => exact .read b h (not_or.mpr ⟨small, small'⟩)
    | failed h tooLarge => exact .failed h (Or.inr tooLarge)

theorem bind_ok (hx : Converts x p) (g : α → β) : Converts (x >>= fun a => .ok (g a)) p :=
  (hx.bind fun a => .read (g a) rfl not_false).congr (iff_of_eq (or_false p))

/-- A row of steps fails for the first one that does. -/
theorem foldlM {f : β → α → Except Fault β} {large : α → Prop} {l : List α}
    (h : ∀ a ∈ l, ∀ b, Converts (f b a) (large a)) (b : β) : Converts (l.foldlM f b) (∃ a ∈ l, large a) := by
  induction l generalizing b with
  | nil => exact .read b rfl fun ⟨_, ha, _⟩ => List.not_mem_nil ha
  | cons a l ih =>
    rw [List.foldlM_cons]
    have hrest := ih fun a' ha' => h a' (List.mem_cons_of_mem _ ha')
    refine ((h a List.mem_cons_self b).bind hrest).congr ?_
    simp only [List.mem_cons, exists_eq_or_imp]

end Converts

theorem Shape.IsNumber.converts {v : Value} (hv : Shape.IsNumber v) : Converts v.toNumber v.TooLarge := by
  cases hv with
  | float x => exact .read x rfl not_false
  | int n =>
    cases hn : Binary64.ofInt? n with
    | some x => exact .read x (by rw [Value.toNumber, hn]; rfl) (by simp [Value.TooLarge, hn])
    | none => exact .failed (by rw [Value.toNumber, hn]; rfl) hn

/-! ## Palettes -/

/-- A channel is a float, or the integer zero or one. -/
theorem Shape.Channel.exists_number {v : Value} (h : Shape.Channel v) : ∃ x, v.toNumber = .ok x := by
  obtain ⟨hnumber, hleast, hgreatest⟩ := h
  cases hnumber with
  | float x => exact ⟨x, rfl⟩
  | int n =>
    rw [Shape.below_of_liesAt (Shape.liesAt_int n)] at hleast
    rw [Shape.above_of_liesAt (Shape.liesAt_int n)] at hgreatest
    obtain rfl | rfl : n = 0 ∨ n = 1 := by omega
    · exact ⟨.zero, by rw [Value.toNumber, Binary64.ofInt?_zero]; rfl⟩
    · exact ⟨.one, by rw [Value.toNumber, Binary64.ofInt?_one]; rfl⟩

theorem Rgb.exists_of_color {v : Value} (h : Shape.Color v) : ∃ c, Rgb.ofValue v = .ok c := by
  obtain ⟨r, g, b, rfl, hr, hg, hb⟩ := h
  obtain ⟨x, hx⟩ := hr.exists_number
  obtain ⟨y, hy⟩ := hg.exists_number
  obtain ⟨z, hz⟩ := hb.exists_number
  exact ⟨⟨x, y, z⟩, bind_eq_ok.mpr ⟨(r, g, b), rfl, bind_eq_ok.mpr ⟨x, hx, bind_eq_ok.mpr ⟨y, hy,
    bind_eq_ok.mpr ⟨z, hz, rfl⟩⟩⟩⟩⟩

theorem Palette.exists_of_colors {colors : Entries Value} (h : Shape.Colors colors) :
    ∃ p, Palette.ofValue (.map colors) = .ok p := by
  rw [Palette.ofValue_map]
  have hcolors : ∀ color ∈ colors, ∃ c, Palette.namedColor color.1 color.2 = .ok c := by
    intro color hcolor
    obtain ⟨c, hc⟩ := Rgb.exists_of_color (h color.1 color.2 hcolor).2
    exact ⟨(color.1, c), by rw [Palette.namedColor, hc]; rfl⟩
  obtain ⟨found, hfound⟩ := exists_mapM hcolors
  exact ⟨⟨Entries.ofPairs found⟩, by rw [hfound]; rfl⟩

/-! ## Timings -/

namespace Timing

variable {block : Entries Value}

theorem exists_setter {key : String} (h : key ∈ ["scale", "offset"]) (t : Timing) : ∃ put, t.setter? key = some put := by
  simp only [List.mem_cons, List.not_mem_nil, or_false] at h
  rcases h with rfl | rfl
  · exact ⟨_, rfl⟩
  · exact ⟨_, rfl⟩

/-- A time block with one entry for a key is put over the standard timing entry by entry. -/
theorem decode_eq (hb : Shape.Time block) (hn : (Entries.keys block).Nodup) :
    ShaderConfig.decodeTiming block = block.foldlM (fun (t : Timing) (key, value) => do
      let x ← value.toNumber
      match t.setter? key with
      | some put => return put (.float x)
      | none => throw .wrongKind) {} := by
  have hkeys : Entries.mapKeys Text.snakeCase block = block :=
    Entries.mapKeys_of_fixed hn fun key hkey => key_fixed (hb.only key hkey)
  exact congrArg (List.foldlM _ _) hkeys

theorem number_of_time (hb : Shape.Time block) (hn : (Entries.keys block).Nodup) {p : String × Value} (h : p ∈ block) :
    Shape.IsNumber p.2 := by
  have hget := Entries.get?_of_mem hn h
  have hkey := hb.only p.1 (List.mem_map_of_mem h)
  simp only [List.mem_cons, List.not_mem_nil, or_false] at hkey
  rcases hkey with hkey | hkey
  · obtain ⟨v, hv, hscale⟩ := hb.scale
    rw [hkey, hv] at hget
    exact Option.some.inj hget ▸ hscale.number
  · exact hb.offset _ (hkey ▸ hget)

theorem decode_converts (hb : Shape.Time block) (hn : (Entries.keys block).Nodup) :
    Converts (ShaderConfig.decodeTiming block) (∃ p ∈ block, p.2.TooLarge) := by
  rw [decode_eq hb hn]
  refine .foldlM (fun p hp t => ?_) _
  obtain ⟨put, hput⟩ := exists_setter (hb.only p.1 (List.mem_map_of_mem hp)) t
  simp only [hput]
  exact (number_of_time hb hn hp).converts.bind_ok fun x => put (.float x)

end Timing

/-! ## Vignettes -/

namespace Vignette

/-- A key that names a parameter, in either spelling. -/
def IsParameter (key : String) : Prop := Text.snakeCase key ∈ Entries.keys standard.fields

instance (key : String) : Decidable (IsParameter key) := inferInstanceAs (Decidable (_ ∈ _))

theorem setter?_eq_none_iff {name : String} (v : Vignette) :
    v.setter? name = none ↔ name ∉ Entries.keys standard.fields := by
  have hkeys : Entries.keys standard.fields = ["strength", "smoothness", "base_brightness", "brightness_boost"] := rfl
  rw [hkeys]
  unfold setter?
  split <;> simp_all

variable {entries : Entries Value}

theorem override_converts {v : Vignette} {key : String} {value : Value} (hvalue : Shape.IsNumber value) :
    Converts (v.override key value) (IsParameter key ∧ value.TooLarge) := by
  rw [override]
  cases hput : v.setter? (Text.snakeCase key) with
  | none => exact .read v rfl fun h => (setter?_eq_none_iff v).mp hput h.1
  | some put =>
    have hkey : IsParameter key := by
      refine Classical.byContradiction fun hkey => ?_
      rw [(setter?_eq_none_iff v).mpr hkey] at hput
      cases hput
    exact (hvalue.converts.bind_ok fun x => put (.float x)).congr (and_iff_right hkey).symm

theorem overrides_convert (h : Shape.Each (fun _ => Shape.IsNumber) entries) :
    Converts (withOverrides entries) (∃ p ∈ entries, IsParameter p.1 ∧ p.2.TooLarge) := by
  rw [withOverrides]
  refine .foldlM ?_ standard
  rintro ⟨key, value⟩ hp v
  exact override_converts (h key value hp)

/-- A block without entries overrides nothing, so it need not be told from one that counts as absent. -/
theorem ofOverrides_map (entries : Entries Value) : ofOverrides (.map entries) = withOverrides entries := by
  cases entries with
  | nil => rfl
  | cons p entries => rfl

end Vignette

namespace ShaderConfig

variable {entries d : Entries Value}

/-- The numbers that decoding converts: those of the time block, and those that the vignette has
for its parameters. -/
def converted (entries : Entries Value) : List Value :=
  ((entriesOf (field "time" entries)) ++
    (entriesOf (field "vignette" entries)).filter fun p => decide (Vignette.IsParameter p.1)).map (·.2)

theorem tooLarge_converted_iff : (∃ v ∈ converted entries, v.TooLarge) ↔
    (∃ p ∈ entriesOf (field "time" entries), p.2.TooLarge) ∨
      ∃ p ∈ entriesOf (field "vignette" entries), Vignette.IsParameter p.1 ∧ p.2.TooLarge := by
  constructor
  · rintro ⟨v, hv, hlarge⟩
    simp only [converted, List.mem_map, List.mem_append, List.mem_filter, decide_eq_true_eq] at hv
    obtain ⟨p, hp | ⟨hp, hkey⟩, rfl⟩ := hv
    · exact Or.inl ⟨p, hp, hlarge⟩
    · exact Or.inr ⟨p, hp, hkey, hlarge⟩
  · rintro (⟨p, hp, hlarge⟩ | ⟨p, hp, hkey, hlarge⟩)
    · exact ⟨p.2, List.mem_map_of_mem (List.mem_append_left _ hp), hlarge⟩
    · refine ⟨p.2, List.mem_map_of_mem (List.mem_append_right _ ?_), hlarge⟩
      exact List.mem_filter.mpr ⟨hp, decide_eq_true hkey⟩

theorem decodeVignette_converts {v : Value} (h : Shape.Vignette v) :
    Converts (decodeVignette v) (∃ p ∈ entriesOf v, Vignette.IsParameter p.1 ∧ p.2.TooLarge) := by
  rcases h with rfl | ⟨entries, rfl, hnumbers⟩
  · exact .read none rfl fun ⟨_, hp, _⟩ => List.not_mem_nil hp
  · show Converts (Vignette.ofOverrides (.map entries) >>= _) _
    rw [Vignette.ofOverrides_map]
    exact (Vignette.overrides_convert hnumbers).bind_ok some

/-- The blocks of accepted entries. -/
theorem vignette_of_shape (h : Shape.Config entries) : Shape.Vignette (field "vignette" entries) := by
  rw [field]
  cases hv : Entries.get? "vignette" entries with
  | none => exact Or.inl rfl
  | some v => exact h.vignette v hv

theorem exists_palette (h : Shape.Config entries) :
    ∃ p, Palette.ofValue (.map (entriesOf (field "colors" (entriesOf (field "palette" entries))))) = .ok p :=
  Palette.exists_of_colors (entriesOf_of_mayHave (entriesOf_of_mapping (field_of_has h.palette)).colors Shape.each_nil)

/-- Decoding accepted entries fails for what it converts and for nothing else. -/
theorem decode_converts (h : Shape.Config entries) (hk : (field "time" entries).isKeyed = true) :
    Converts (decode entries) (∃ v ∈ converted entries, v.TooLarge) := by
  have htime := Timing.decode_converts (entriesOf_of_mapping (field_of_has h.time)) (keys_entriesOf_nodup hk)
  have hvignette := decodeVignette_converts (vignette_of_shape h)
  obtain ⟨palette, hpalette⟩ := exists_palette h
  refine (htime.bind fun time => ?_).congr tooLarge_converted_iff.symm
  rw [hpalette]
  exact hvignette.bind_ok _

/-- The mapping that is held to the schema. -/
def respelled (d : Entries Value) : Entries Value := Entries.mapKeys Text.snakeCase d

theorem ofValue_of_passed (hk : (Value.map d).isKeyed = true) (h : ShaderLoom.validate (.map (respelled d)) = .ok .passed) :
    Converts (ofValue (.map d)) (∃ v ∈ converted (respelled d), v.TooLarge) := by
  obtain ⟨entries, hentries, hc⟩ := Shape.judge_eq_passed_iff.mp (validate_eq_ok_iff.mp h).1
  cases hentries
  have hvalue : ofValue (.map d) = decode (respelled d) := ofNormalized_of_shape hc
  exact hvalue ▸ decode_converts hc (field_mapKeys_isKeyed _ hk)

theorem ofValue_of_failed {problems : List Problem} (h : ShaderLoom.validate (.map (respelled d)) = .ok (.failed problems)) :
    ofValue (.map d) = .error (.invalidConfig (field "name" (respelled d)) problems) := by
  show ofNormalized (respelled d) = _
  rw [ofNormalized_eq, h]
  rfl

theorem ofValue_of_untold {fault : Fault} (h : ShaderLoom.validate (.map (respelled d)) = .error fault) :
    ofValue (.map d) = .error fault := by
  show ofNormalized (respelled d) = _
  rw [ofNormalized_eq, h]
  rfl

/-- A mapping that the schema rejects is rejected with the problems that it lists; one that it
accepts is read, or one of the numbers to convert is too large and that is the fault. Where the
verdict cannot be told, that is the fault. -/
theorem ofValue_outcome (hk : (Value.map d).isKeyed = true) :
    (∃ problems, ShaderLoom.validate (.map (respelled d)) = .ok (.failed problems) ∧
      ofValue (.map d) = .error (.invalidConfig (field "name" (respelled d)) problems)) ∨
    (ShaderLoom.validate (.map (respelled d)) = .ok .passed ∧ (∀ v ∈ converted (respelled d), ¬v.TooLarge) ∧
      ∃ c, ofValue (.map d) = .ok c) ∨
    (ShaderLoom.validate (.map (respelled d)) = .ok .passed ∧ (∃ v ∈ converted (respelled d), v.TooLarge) ∧
      ofValue (.map d) = .error .integerTooLarge) ∨
    (ShaderLoom.validate (.map (respelled d)) = .error .unprintable ∧ ofValue (.map d) = .error .unprintable) := by
  rcases validate_map_cases (respelled d) with ⟨problems, h⟩ | h | ⟨h, -⟩
  · exact Or.inl ⟨problems, h, ofValue_of_failed h⟩
  · cases ofValue_of_passed hk h with
    | read c hread small => exact Or.inr (Or.inl ⟨h, fun v hv hlarge => small ⟨v, hv, hlarge⟩, c, hread⟩)
    | failed hfault tooLarge => exact Or.inr (Or.inr (Or.inl ⟨h, tooLarge, hfault⟩))
  · exact Or.inr (Or.inr (Or.inr ⟨h, ofValue_of_untold h⟩))

/-- Keys in both spellings, integers for numbers, and a vignette with a key that it does not know. -/
def sample (scale channel : Value) : Entries Value := [
  ("id", .int 1),
  ("name", .str "A"),
  ("fallbackColor", .str "#A0b1C2"),
  ("noise", .str "hash"),
  ("time", .map [("offset", .int (-3)), ("scale", scale)]),
  ("palette", .map [("colors", .map [("SKY", .list [channel, .int 0, .float .one])])]),
  ("effect", .str "stippled"),
  ("vignette", .map [("brightnessBoost", .int 1), ("unknown", .int (10 ^ 309))])]

theorem sample_read :
    (Value.map (sample (.int 2) (.int 1))).isKeyed = true ∧
      ShaderLoom.validate (.map (respelled (sample (.int 2) (.int 1)))) = .ok .passed ∧
      ∃ c, ofValue (.map (sample (.int 2) (.int 1))) = .ok c := by
  have hk : (Value.map (sample (.int 2) (.int 1))).isKeyed = true := by decide
  have hjudged : judge (.map (respelled (sample (.int 2) (.int 1)))) = .passed := by decide +kernel
  have hpassed := validate_of_passed hjudged
  have hnone : ∀ v ∈ converted (respelled (sample (.int 2) (.int 1))), ¬v.TooLarge := by decide +kernel
  rcases ofValue_outcome hk with ⟨problems, hfailed, -⟩ | ⟨-, -, hread⟩ | ⟨-, ⟨v, hv, hlarge⟩, -⟩ | ⟨huntold, -⟩
  · cases hpassed.symm.trans hfailed
  · exact ⟨hk, hpassed, hread⟩
  · exact absurd hlarge (hnone v hv)
  · cases hpassed.symm.trans huntold

/-- A scale of 310 digits is accepted and cannot be read. -/
theorem accepted_not_read :
    (Value.map (sample (.int (10 ^ 309)) (.int 1))).isKeyed = true ∧
      ShaderLoom.validate (.map (respelled (sample (.int (10 ^ 309)) (.int 1)))) = .ok .passed ∧
      ofValue (.map (sample (.int (10 ^ 309)) (.int 1))) = .error .integerTooLarge := by
  have hk : (Value.map (sample (.int (10 ^ 309)) (.int 1))).isKeyed = true := by decide
  have hjudged : judge (.map (respelled (sample (.int (10 ^ 309)) (.int 1)))) = .passed := by decide +kernel
  have hpassed := validate_of_passed hjudged
  have hlarge : ∃ v ∈ converted (respelled (sample (.int (10 ^ 309)) (.int 1))), v.TooLarge := by decide +kernel
  cases ofValue_of_passed hk hpassed with
  | read c hread small => exact absurd hlarge small
  | failed hfault tooLarge => exact ⟨hk, hpassed, hfault⟩

end ShaderConfig

end ShaderLoom
