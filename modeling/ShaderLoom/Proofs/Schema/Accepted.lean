/-
  ShaderLoom.Proofs.Schema.Accepted — the values that the configuration schema accepts.

  Rule by rule and block by block, passing the schema comes to having a shape. So a value is
  accepted exactly when it is a mapping with the shape of a configuration (`judge_ok_iff`).
-/

import ShaderLoom.Proofs.Number.Whole
import ShaderLoom.Proofs.Schema.Passing
import ShaderLoom.Proofs.Schema.Shape
import ShaderLoom.Schema.Shader

namespace ShaderLoom.Shape

open ShaderLoom.Schema

/-! ## Numbers and bounds -/

variable {v : Value} {declared : List String}

theorem number_iff : PassesRule declared (.kinds [.number]) v ↔ IsNumber v := by
  rw [kinds_iff]
  constructor
  · intro h
    cases v <;> simp [ValueKind.admits] at h
    · exact .int _
    · exact .float _
  · intro h
    cases h <;> simp [ValueKind.admits]

theorem numbers_iff : Passes (.rules [.kinds [.number]]) v ↔ IsNumber v := by
  rw [passes_rules_iff, List.forall_mem_singleton, number_iff]

theorem isNumber_iff : isNumber v = true ↔ IsNumber v := by
  constructor
  · intro h
    cases v <;> simp [isNumber] at h
    · exact .int _
    · exact .float _
  · intro h
    cases h <;> rfl

theorem not_below_iff {bound : Value} {n : Int} (hb : LiesAt bound n) : isBelow v bound = false ↔ ¬Below v n := by
  rw [LiesAt] at hb
  rw [isBelow, hb]
  cases h : v.extent? <;> simp [Below, h]

theorem not_above_iff {bound : Value} {n : Int} (hb : LiesAt bound n) : isBelow bound v = false ↔ ¬Above v n := by
  rw [LiesAt] at hb
  rw [isBelow, hb]
  cases h : v.extent? <;> simp [Above, h]

theorem not_atMost_iff {bound : Value} {n : Int} (hb : LiesAt bound n) :
    isAtMost v bound = false ↔ ¬(Below v n ∨ LiesAt v n) := by
  rw [LiesAt] at hb
  rw [isAtMost, hb]
  cases h : v.extent? <;> simp [Below, LiesAt, h]

theorem liesAt_int (n : Int) : LiesAt (.int n) n := rfl

theorem below_of_liesAt {n m : Int} (h : LiesAt v n) : Below v m ↔ n < m := by
  rw [LiesAt] at h
  simp [Below, h, Extent.ofInt_lt]

theorem above_of_liesAt {n m : Int} (h : LiesAt v n) : Above v m ↔ m < n := by
  rw [LiesAt] at h
  simp [Above, h, Extent.ofInt_lt]

theorem liesAt_of_liesAt {n m : Int} (h : LiesAt v n) : LiesAt v m ↔ n = m := by
  rw [LiesAt] at h
  simp [LiesAt, h, Extent.ofInt_inj]

theorem wholeNumber_iff :
    PassesRule declared (.kinds [.wholeNumber]) v ↔ IsNumber v ∧ ∃ n : Int, LiesAt v n := by
  rw [kinds_iff]
  constructor
  · rintro ⟨kind, hkind, h⟩
    cases List.mem_singleton.mp hkind
    cases v <;> simp only [ValueKind.admits, Bool.false_eq_true, Option.isSome_iff_exists] at h
    · exact ⟨.int _, _, liesAt_int _⟩
    · obtain ⟨n, hn⟩ := h
      exact ⟨.float _, n, Binary64.toInt?_eq_some_iff.mp hn⟩
  · rintro ⟨hnumber, n, hn⟩
    refine ⟨_, List.mem_singleton_self _, ?_⟩
    cases hnumber with
    | int => rfl
    | float x => exact Option.isSome_iff_exists.mpr ⟨n, Binary64.toInt?_eq_some_iff.mpr hn⟩

theorem id_iff : Passes (.rules [.kinds [.wholeNumber], .least (.int 0)]) v ↔ IsId v := by
  rw [passes_rules_iff]
  simp only [List.forall_mem_cons, List.not_mem_nil, false_implies, implies_true, and_true, wholeNumber_iff,
    least_iff, not_below_iff (liesAt_int 0), isNumber_iff]
  constructor
  · rintro ⟨⟨hnumber, n, hn⟩, hleast⟩
    have hpos : 0 ≤ n := Int.not_lt.mp (mt (below_of_liesAt hn).mpr (hleast hnumber))
    obtain ⟨m, rfl⟩ := Int.eq_ofNat_of_zero_le hpos
    exact ⟨hnumber, m, hn⟩
  · rintro ⟨hnumber, n, hn⟩
    exact ⟨⟨hnumber, n, hn⟩, fun _ => mt (below_of_liesAt hn).mp (by omega)⟩

theorem channel_iff :
    Passes (.rules [.kinds [.number], .least (.float .zero), .greatest (.float .one)]) v ↔ Channel v := by
  have hzero : LiesAt (.float .zero) 0 := Binary64.extent?_zero
  have hone : LiesAt (.float .one) 1 := Binary64.extent?_one
  rw [passes_rules_iff]
  simp only [List.forall_mem_cons, List.not_mem_nil, false_implies, implies_true, and_true, number_iff,
    least_iff, greatest_iff, not_below_iff hzero, not_above_iff hone, isNumber_iff]
  exact ⟨fun ⟨hn, hl, hg⟩ => ⟨hn, hl hn, hg hn⟩, fun h => ⟨h.number, fun _ => h.least, fun _ => h.greatest⟩⟩

theorem scale_iff : Passes (.rules [.kinds [.number], .above (.int 0)]) v ↔ Scale v := by
  rw [passes_rules_iff]
  simp only [List.forall_mem_cons, List.not_mem_nil, false_implies, implies_true, and_true, number_iff,
    above_iff, not_atMost_iff (liesAt_int 0), isNumber_iff]
  exact ⟨fun ⟨hn, hp⟩ => ⟨hn, hp hn⟩, fun h => ⟨h.number, fun _ => h.positive⟩⟩

/-! ## Texts and their forms -/

theorem text_iff : PassesRule declared (.kinds [.text]) v ↔ IsText v := by
  rw [kinds_iff]
  cases v <;> simp [ValueKind.admits, IsText]

theorem texts_iff : Passes (.rules [.kinds [.text]]) v ↔ IsText v := by
  rw [passes_rules_iff, List.forall_mem_singleton, text_iff]

theorem name_iff : Passes (.rules [.kinds [.text], .shortest 1]) v ↔ ∃ s, v = .str s ∧ s ≠ "" := by
  rw [passes_rules_iff]
  simp only [List.forall_mem_cons, List.not_mem_nil, false_implies, implies_true, and_true, text_iff]
  constructor
  · rintro ⟨⟨s, rfl⟩, h⟩
    refine ⟨s, rfl, fun he => ?_⟩
    have := shortest_iff.mp h
    simp [he] at this
  · rintro ⟨s, rfl, h⟩
    refine ⟨⟨s, rfl⟩, shortest_iff.mpr ?_⟩
    exact Nat.pos_of_ne_zero fun he => h (String.length_eq_zero_iff.mp he)

theorem isHexDigit_iff {c : Char} : TextForm.isHexDigit c = true ↔ HexDigit c := by
  simp [TextForm.isHexDigit, HexDigit, or_assoc]

theorem isNameStart_iff {c : Char} : TextForm.isNameStart c = true ↔ NameStart c := by
  simp [TextForm.isNameStart, NameStart, or_assoc]

theorem isNamePart_iff {c : Char} : TextForm.isNamePart c = true ↔ NamePart c := by
  simp [TextForm.isNamePart, NamePart, isNameStart_iff]

theorem atEnd_iff {rest : List Char} : TextForm.atEnd rest = true ↔ rest = [] ∨ rest = ['\n'] := by
  simp [TextForm.atEnd]

theorem spells_iff {s : String} {cs : List Char} :
    Spells s cs ↔ ∃ rest, s.toList = cs ++ rest ∧ TextForm.atEnd rest = true := by
  simp [Spells, atEnd_iff, and_or_left, exists_or]

theorem hexColor_iff {s : String} : TextForm.hexColor.fits s.toList = true ↔ HexColor s := by
  simp only [HexColor, spells_iff]
  constructor
  · intro h
    rcases hs : s.toList with _ | ⟨c, cs⟩
    · simp [hs, TextForm.fits] at h
    · by_cases hc : c = '#'
      · subst hc
        rw [hs] at h
        simp only [TextForm.fits, Bool.and_eq_true, beq_iff_eq, List.all_eq_true, isHexDigit_iff] at h
        obtain ⟨⟨hlength, hdigits⟩, hend⟩ := h
        exact ⟨cs.take 6, hlength, hdigits, cs.drop 6, by simp, hend⟩
      · simp [hs, TextForm.fits, hc] at h
  · rintro ⟨digits, hlength, hdigits, rest, hs, hend⟩
    have htake : (digits ++ rest).take 6 = digits := List.take_left' hlength
    have hdrop : (digits ++ rest).drop 6 = rest := List.drop_left' hlength
    simp only [hs, List.cons_append, TextForm.fits, htake, hdrop, Bool.and_eq_true, beq_iff_eq,
      List.all_eq_true, isHexDigit_iff]
    exact ⟨⟨hlength, hdigits⟩, hend⟩

theorem dropWhile_isNamePart {cs rest : List Char} (hcs : ∀ c ∈ cs, NamePart c)
    (hend : TextForm.atEnd rest = true) : (cs ++ rest).dropWhile TextForm.isNamePart = rest := by
  rw [List.dropWhile_append_of_pos fun c hc => isNamePart_iff.mpr (hcs c hc)]
  rcases atEnd_iff.mp hend with rfl | rfl <;> decide

theorem identifier_iff {s : String} : TextForm.identifier.fits s.toList = true ↔ Identifier s := by
  simp only [Identifier, spells_iff]
  constructor
  · intro h
    rcases hs : s.toList with _ | ⟨c, cs⟩
    · simp [hs, TextForm.fits] at h
    · simp only [hs, TextForm.fits, Bool.and_eq_true, isNameStart_iff] at h
      refine ⟨c, cs.takeWhile TextForm.isNamePart, h.1, ?_, cs.dropWhile TextForm.isNamePart, ?_, h.2⟩
      · exact fun d hd => isNamePart_iff.mp (List.all_eq_true.mp List.all_takeWhile d hd)
      · rw [List.cons_append, List.takeWhile_append_dropWhile]
  · rintro ⟨c, cs, hc, hcs, rest, hs, hend⟩
    simp only [hs, List.cons_append, TextForm.fits, dropWhile_isNamePart hcs hend, Bool.and_eq_true,
      isNameStart_iff]
    exact ⟨hc, hend⟩

theorem fallbackColor_iff :
    Passes (.rules [.kinds [.text], .form .hexColor]) v ↔ ∃ s, v = .str s ∧ HexColor s := by
  rw [passes_rules_iff]
  simp only [List.forall_mem_cons, List.not_mem_nil, false_implies, implies_true, and_true, text_iff]
  constructor
  · rintro ⟨⟨s, rfl⟩, h⟩
    exact ⟨s, rfl, hexColor_iff.mp (form_iff.mp h)⟩
  · rintro ⟨s, rfl, h⟩
    exact ⟨⟨s, rfl⟩, form_iff.mpr (hexColor_iff.mpr h)⟩

theorem tag_iff {α : Type} {tag : α → String} {all : List α} (hall : ∀ kind, kind ∈ all) :
    Passes (.rules [.oneOf (all.map tag)]) v ↔ ∃ kind, v = .str (tag kind) := by
  rw [passes_rules_iff]
  simp only [List.forall_mem_cons, List.not_mem_nil, false_implies, implies_true, and_true, oneOf_iff,
    List.mem_map]
  constructor
  · rintro ⟨_, ⟨kind, -, rfl⟩, rfl⟩
    exact ⟨kind, rfl⟩
  · rintro ⟨kind, rfl⟩
    exact ⟨_, ⟨kind, hall kind, rfl⟩, rfl⟩

/-! ## Mappings and lists -/

theorem mapping_iff {rs : List Rule} :
    Passes (.rules (.kinds [.mapping] :: rs)) v ↔
      Mapping (fun entries => ∀ r ∈ rs, PassesRule (declaredFields rs) r (.map entries)) v := by
  rw [passes_rules_iff, List.forall_mem_cons, kinds_iff]
  constructor
  · rintro ⟨⟨kind, hkind, h⟩, hrs⟩
    cases List.mem_singleton.mp hkind
    cases v <;> simp only [ValueKind.admits, Bool.false_eq_true] at h
    exact ⟨_, rfl, hrs⟩
  · rintro ⟨entries, rfl, hrs⟩
    exact ⟨⟨_, List.mem_singleton_self _, rfl⟩, hrs⟩

theorem Mapping.congr {P Q : Entries Value → Prop} (h : ∀ entries, P entries ↔ Q entries) :
    Mapping P v ↔ Mapping Q v := by
  simp [Mapping, h]

variable {entries : Entries Value}

/-- A field that may be missing and one that is required as well. -/
theorem has_iff {key : String} {P : Value → Prop} :
    Entries.has key entries = true ∧ MayHave key P entries ↔ Has key P entries := by
  rw [Entries.has_iff]
  constructor
  · rintro ⟨⟨w, hw⟩, h⟩
    exact ⟨w, hw, h w hw⟩
  · rintro ⟨w, hw, h⟩
    refine ⟨⟨w, hw⟩, fun x hx => ?_⟩
    rw [hw] at hx
    exact Option.some.inj hx ▸ h

theorem time_iff :
    Passes (.rules [
      .kinds [.mapping],
      .required ["scale"],
      .fields [
        ("scale", .rules [.kinds [.number], .above (.int 0)]),
        ("offset", .rules [.kinds [.number]])],
      .closed]) v ↔ Mapping Time v := by
  rw [mapping_iff]
  refine Mapping.congr fun entries => ?_
  simp only [List.forall_mem_cons, List.not_mem_nil, false_implies, implies_true, and_true, required_iff,
    fields_iff, closed_iff, scale_iff, numbers_iff]
  constructor
  · rintro ⟨hscale, ⟨hs, ho⟩, honly⟩
    exact ⟨honly, has_iff.mp ⟨hscale, hs⟩, ho⟩
  · rintro ⟨honly, hscale, ho⟩
    obtain ⟨hhas, hs⟩ := has_iff.mpr hscale
    exact ⟨hhas, ⟨hs, ho⟩, honly⟩

theorem color_iff : Passes Schema.rgb.reference v ↔ Color v := by
  rw [passes_reference_iff, passes_rules_iff]
  simp only [rgb, List.forall_mem_cons, List.not_mem_nil, false_implies, implies_true, and_true, kinds_iff]
  constructor
  · rintro ⟨⟨kind, hkind, h⟩, hitems, hfewest, hmost⟩
    cases List.mem_singleton.mp hkind
    cases v <;> simp only [ValueKind.admits, Bool.false_eq_true] at h
    rename_i l
    rw [items_iff] at hitems
    have hlength : l.length = 3 := Nat.le_antisymm (most_iff.mp hmost) (fewest_iff.mp hfewest)
    obtain ⟨r, g, b, rfl⟩ : ∃ r g b, l = [r, g, b] := by
      match l, hlength with
      | [r, g, b], _ => exact ⟨r, g, b, rfl⟩
    simp only [List.forall_mem_cons, List.not_mem_nil, false_implies, implies_true, and_true, channel_iff]
      at hitems
    exact ⟨r, g, b, rfl, hitems⟩
  · rintro ⟨r, g, b, rfl, hchannels⟩
    refine ⟨⟨_, List.mem_singleton_self _, rfl⟩, items_iff.mpr ?_, fewest_iff.mpr (by simp), most_iff.mpr (by simp)⟩
    simpa [channel_iff] using hchannels

theorem colors_iff :
    Passes (.rules [
      .kinds [.mapping],
      .fieldNames (.rules [.form .identifier]),
      .otherFields Schema.rgb.reference]) v ↔ Mapping Colors v := by
  rw [mapping_iff]
  refine Mapping.congr fun entries => ?_
  simp only [List.forall_mem_cons, List.not_mem_nil, false_implies, implies_true, and_true, fieldNames_iff,
    otherFields_iff, passes_rules_iff, form_iff, identifier_iff, color_iff]
  constructor
  · rintro ⟨hnames, hcolors⟩ key w hw
    exact ⟨hnames key (List.mem_map_of_mem hw), hcolors key w hw (by simp [declaredFields])⟩
  · intro h
    refine ⟨fun key hkey => ?_, fun key w hw _ => (h key w hw).2⟩
    obtain ⟨⟨key, w⟩, hw, rfl⟩ := List.mem_map.mp hkey
    exact (h key w hw).1

theorem palette_iff : Passes Schema.palette.reference v ↔ Mapping Palette v := by
  rw [passes_reference_iff, Schema.palette, mapping_iff]
  refine Mapping.congr fun entries => ?_
  simp only [List.forall_mem_cons, List.not_mem_nil, false_implies, implies_true, and_true, fields_iff,
    closed_iff, colors_iff]
  exact ⟨fun ⟨hcolors, honly⟩ => ⟨honly, hcolors⟩, fun h => ⟨h.colors, h.only⟩⟩

theorem parameter_iff : Passes (.rules [.kinds [.number, .truth, .text]]) v ↔ IsParameter v := by
  rw [passes_rules_iff]
  simp only [List.forall_mem_cons, List.not_mem_nil, false_implies, implies_true, and_true, kinds_iff]
  constructor
  · intro h
    cases v <;> simp [ValueKind.admits] at h
    · exact .truth _
    · exact .number (.int _)
    · exact .number (.float _)
    · exact .text _
  · intro h
    cases h with
    | number h => cases h <;> simp [ValueKind.admits]
    | truth b => simp [ValueKind.admits]
    | text s => simp [ValueKind.admits]

theorem each_nil {P : String → Value → Prop} : Each P [] := fun _ _ h => nomatch h

/-- A mapping without declared fields is held to one schema throughout. -/
theorem each_iff {each : Schema} {P : Value → Prop} (h : ∀ w, Passes each w ↔ P w) :
    PassesRule [] (.otherFields each) (.map entries) ↔ Each (fun _ => P) entries := by
  simp [otherFields_iff, Each, h]

theorem parameters_iff :
    Passes (.rules [.kinds [.mapping], .otherFields (.rules [.kinds [.number, .truth, .text]])]) v ↔
      Mapping (Each fun _ => IsParameter) v := by
  rw [mapping_iff]
  refine Mapping.congr fun entries => ?_
  rw [List.forall_mem_singleton]
  exact each_iff fun _ => parameter_iff

theorem vignette_iff :
    Passes (.rules [.kinds [.mapping, .nothing], .otherFields (.rules [.kinds [.number]])]) v ↔ Vignette v := by
  have heach : ∀ entries, PassesRule [] (.otherFields (.rules [.kinds [.number]])) (.map entries) ↔
      Each (fun _ => IsNumber) entries := fun entries =>
    each_iff fun _ => numbers_iff
  rw [passes_rules_iff, List.forall_mem_cons, List.forall_mem_singleton, kinds_iff]
  constructor
  · rintro ⟨hkinds, h⟩
    cases v <;> simp [ValueKind.admits] at hkinds
    · exact Or.inl rfl
    · exact Or.inr ⟨_, rfl, (heach _).mp h⟩
  · rintro (rfl | ⟨entries, rfl, h⟩)
    · exact ⟨⟨.nothing, by simp, rfl⟩, rfl⟩
    · exact ⟨⟨.mapping, by simp, rfl⟩, (heach _).mpr h⟩

theorem truth_iff : Passes (.rules [.kinds [.truth]]) v ↔ ∃ b, v = .bool b := by
  rw [passes_rules_iff]
  simp only [List.forall_mem_cons, List.not_mem_nil, false_implies, implies_true, and_true, kinds_iff]
  cases v <;> simp [ValueKind.admits]

/-! ## The configuration -/

theorem config_iff : Passes (.rules Schema.config.body) v ↔ Mapping Config v := by
  rw [Schema.config, mapping_iff]
  refine Mapping.congr fun entries => ?_
  simp only [List.forall_mem_cons, List.not_mem_nil, false_implies, implies_true, and_true, required_iff,
    fields_iff, closed_iff, id_iff, name_iff, texts_iff, fallbackColor_iff, tag_iff NoiseKind.mem_all, time_iff,
    palette_iff, tag_iff EffectKind.mem_all, parameters_iff, vignette_iff, truth_iff]
  constructor
  · rintro ⟨⟨hid, hname, hnoise, htime, hpalette, heffect⟩,
      ⟨id, name, description, fallbackColor, noise, time, palette, effect, effectParams, vignette, useUniformColors⟩,
      only⟩
    exact {
      only
      id := has_iff.mp ⟨hid, id⟩
      name := has_iff.mp ⟨hname, name⟩
      description
      fallbackColor
      noise := has_iff.mp ⟨hnoise, noise⟩
      time := has_iff.mp ⟨htime, time⟩
      palette := has_iff.mp ⟨hpalette, palette⟩
      effect := has_iff.mp ⟨heffect, effect⟩
      effectParams
      vignette
      useUniformColors }
  · intro h
    obtain ⟨hid, id⟩ := has_iff.mpr h.id
    obtain ⟨hname, name⟩ := has_iff.mpr h.name
    obtain ⟨hnoise, noise⟩ := has_iff.mpr h.noise
    obtain ⟨htime, time⟩ := has_iff.mpr h.time
    obtain ⟨hpalette, palette⟩ := has_iff.mpr h.palette
    obtain ⟨heffect, effect⟩ := has_iff.mpr h.effect
    exact ⟨⟨hid, hname, hnoise, htime, hpalette, heffect⟩,
      ⟨id, name, h.description, h.fallbackColor, noise, time, palette, effect, h.effectParams, h.vignette,
        h.useUniformColors⟩, h.only⟩

theorem inPathOrder_eq_nil_iff {problems : List Problem} : Problem.inPathOrder problems = [] ↔ problems = [] := by
  rw [Problem.inPathOrder, ← List.length_eq_zero_iff, List.length_mergeSort, List.length_eq_zero_iff]

theorem configProblems_eq_nil_iff {entries : Entries Value} : configProblems entries = [] ↔ Config entries := by
  rw [configProblems, inPathOrder_eq_nil_iff]
  refine (config_iff (v := .map entries)).trans ⟨?_, fun h => ⟨entries, rfl, h⟩⟩
  rintro ⟨_, heq, h⟩
  cases heq
  exact h

theorem judge_eq_passed_iff {v : Value} : judge v = .passed ↔ Mapping Config v := by
  cases v with
  | map entries =>
    rw [judge_map_eq]
    by_cases h : configProblems entries = []
    · rw [if_pos h]
      simpa [Mapping] using configProblems_eq_nil_iff.mp h
    · rw [if_neg h]
      simpa [Mapping] using mt configProblems_eq_nil_iff.mpr h
  | _ => simp [judge, Mapping]

/-- A value is accepted exactly when it is a mapping with the shape of a configuration. -/
theorem judge_ok_iff (v : Value) : (judge v).ok = true ↔ Mapping Config v := by
  rw [← judge_eq_passed_iff]
  cases judge v <;> simp [Verdict.ok]

end ShaderLoom.Shape
