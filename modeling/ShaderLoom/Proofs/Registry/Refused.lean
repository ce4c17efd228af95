/-
  ShaderLoom.Proofs.Registry.Refused — the catalogs that a registry is made of, and what the others
  are refused for.

  The check goes through a catalog with the names seen so far. A preset either keeps those before it in
  order or offends in one way (`orderly_or_offends`), so the check passes exactly the catalogs that are in
  order (`checkPresets_ok_iff`) and ends with the first offence else (`checkPresets_error_iff`). Being in
  order does not depend on the order of the entries (`Orderly.perm`), and a registry files them by id, so
  only what is reported does (`ofCatalog_verdict`). An offence is told by the key and the id or by the
  name, so a catalog is refused without a word of it when one of those cannot be written out
  (`longIdCatalog_refused`).
-/

import Mathlib.Data.List.Nodup
import ShaderLoom.Proofs.Registry.Custom

namespace ShaderLoom.Registry

variable {catalog other before after l : List (Int × ShaderConfig)} {p : Int × ShaderConfig} {fault : Fault}

/-! ## Presets in order -/

/-- Every preset stands under its id, and no name is given twice. -/
structure Orderly (presets : List (Int × ShaderConfig)) : Prop where
  underId : ∀ p ∈ presets, (Value.int p.1).equals p.2.id = true
  named : (presets.map (·.2.name)).Nodup

/-- What is wrong with a preset behind others: its key first, and its name only under the right key. -/
inductive Offends (before : List (Int × ShaderConfig)) (p : Int × ShaderConfig) : Fault → Prop where
  | misfiled (hid : (Value.int p.1).equals p.2.id = false) : Offends before p (.misfiledPreset p.1 p.2.id)
  | repeated (hid : (Value.int p.1).equals p.2.id = true) (hname : p.2.name ∈ before.map (·.2.name)) :
      Offends before p (.repeatedName p.2.name)

/-- What a catalog is refused for: that shader 0 is missing, before anything else; or the first preset
that offends. -/
inductive Refused (catalog : List (Int × ShaderConfig)) : Fault → Prop where
  | noDefault (hzero : 0 ∉ catalog.map (·.1)) : Refused catalog .noDefaultShader
  | preset {fault : Fault} (before : List (Int × ShaderConfig)) (p : Int × ShaderConfig)
      (after : List (Int × ShaderConfig)) (hzero : 0 ∈ catalog.map (·.1)) (hcatalog : catalog = before ++ p :: after)
      (hbefore : Orderly before) (hoffends : Offends before p fault) : Refused catalog fault

theorem orderly_nil : Orderly [] := ⟨fun _ h => absurd h List.not_mem_nil, List.nodup_nil⟩

theorem orderly_concat_iff : Orderly (before ++ [p]) ↔
    Orderly before ∧ (Value.int p.1).equals p.2.id = true ∧ p.2.name ∉ before.map (·.2.name) := by
  constructor
  · rintro ⟨hid, hnamed⟩
    rw [List.map_append, List.nodup_append] at hnamed
    refine ⟨⟨fun q hq => hid q (List.mem_append_left _ hq), hnamed.1⟩, hid p (List.mem_append_right _ List.mem_cons_self), ?_⟩
    exact fun hm => hnamed.2.2 _ hm _ List.mem_cons_self rfl
  · rintro ⟨hbefore, hid, hname⟩
    refine ⟨fun q hq => ?_, ?_⟩
    · rcases List.mem_append.mp hq with hq | hq
      · exact hbefore.underId q hq
      · exact List.mem_singleton.mp hq ▸ hid
    · rw [List.map_append, List.nodup_append]
      refine ⟨hbefore.named, List.nodup_singleton _, fun name hm other ho heq => hname ?_⟩
      have hother : other = p.2.name := List.mem_singleton.mp ho
      rwa [← hother, ← heq]

theorem Orderly.left (h : Orderly (before ++ after)) : Orderly before := by
  refine ⟨fun q hq => h.underId q (List.mem_append_left _ hq), ?_⟩
  have hnamed := h.named
  rw [List.map_append, List.nodup_append] at hnamed
  exact hnamed.1

theorem Orderly.perm (h : Orderly catalog) (hperm : catalog.Perm other) : Orderly other where
  underId q hq := h.underId q (hperm.mem_iff.mpr hq)
  named := (hperm.map _).nodup_iff.mp h.named

theorem Offends.unique {fault' : Fault} (h : Offends before p fault) (h' : Offends before p fault') :
    fault = fault' := by
  cases h with
  | misfiled hid =>
    cases h' with
    | misfiled => rfl
    | repeated hid' =>
      rw [hid] at hid'
      cases hid'
  | repeated hid =>
    cases h' with
    | misfiled hid' =>
      rw [hid] at hid'
      cases hid'
    | repeated => rfl

theorem Offends.not_orderly (h : Offends before p fault) : ¬Orderly (before ++ [p]) := by
  intro horderly
  obtain ⟨-, hid, hname⟩ := orderly_concat_iff.mp horderly
  cases h with
  | misfiled hid' =>
    rw [hid] at hid'
    cases hid'
  | repeated _ hname' => exact hname hname'

/-- A preset behind others that are in order either is so too or offends. -/
theorem orderly_or_offends (h : Orderly before) (p : Int × ShaderConfig) :
    Orderly (before ++ [p]) ∨ ∃ fault, Offends before p fault := by
  cases hid : (Value.int p.1).equals p.2.id with
  | false => exact Or.inr ⟨_, .misfiled hid⟩
  | true =>
    by_cases hname : p.2.name ∈ before.map (·.2.name)
    · exact Or.inr ⟨_, .repeated hid hname⟩
    · exact Or.inl (orderly_concat_iff.mpr ⟨h, hid, hname⟩)

/-! ## Going through a catalog -/

/-- The names of presets, the last one first, as the check keeps them. -/
def seen (before : List (Int × ShaderConfig)) : List Value := (before.map (·.2.name)).reverse

theorem seen_concat (before : List (Int × ShaderConfig)) (p : Int × ShaderConfig) :
    seen (before ++ [p]) = p.2.name :: seen before := by
  rw [seen, List.map_append, List.reverse_append]
  rfl

/-- Among text, to equal a name that was seen is to be one. -/
theorem any_seen_iff (hnames : ∀ q ∈ before, ∃ s, q.2.name = .str s) (hname : ∃ s, p.2.name = .str s) :
    (seen before).any (·.equals p.2.name) = true ↔ p.2.name ∈ before.map (·.2.name) := by
  obtain ⟨s, hs⟩ := hname
  simp only [seen, List.any_reverse, List.any_map, List.any_eq_true, List.mem_map, Function.comp_apply]
  refine exists_congr fun q => and_congr_right fun hq => ?_
  obtain ⟨t, ht⟩ := hnames q hq
  rw [hs, ht]
  show (t == s) = true ↔ _
  rw [beq_iff_eq, Value.str.injEq]

section Step

variable (hnames : ∀ q ∈ before, ∃ s, q.2.name = .str s) (hname : ∃ s, p.2.name = .str s)
include hnames hname

theorem checkPresets_orderly (h : Orderly (before ++ [p])) (l : List (Int × ShaderConfig)) :
    checkPresets (seen before) (p :: l) = checkPresets (seen (before ++ [p])) l := by
  obtain ⟨-, hid, hfresh⟩ := orderly_concat_iff.mp h
  obtain ⟨s, hs⟩ := hname
  have hkey : p.2.name.isKey = true := by rw [hs]; rfl
  rw [checkPresets, hid, hkey, if_neg (by simp), if_neg (by simp), if_neg, seen_concat]
  rwa [any_seen_iff hnames ⟨s, hs⟩]

theorem checkPresets_offends (h : Offends before p fault) (l : List (Int × ShaderConfig)) :
    checkPresets (seen before) (p :: l) = .error fault.told := by
  cases h with
  | misfiled hid => rw [checkPresets, hid, if_pos (by simp)]
  | repeated hid hrepeated =>
    obtain ⟨s, hs⟩ := hname
    have hkey : p.2.name.isKey = true := by rw [hs]; rfl
    rw [checkPresets, hid, hkey, if_neg (by simp), if_neg (by simp), if_pos]
    rwa [any_seen_iff hnames ⟨s, hs⟩]

end Step

theorem forall_concat {P : Int × ShaderConfig → Prop} (h : ∀ q ∈ before, P q) (hp : P p) :
    ∀ q ∈ before ++ [p], P q := by
  intro q hq
  rcases List.mem_append.mp hq with hq | hq
  · exact h q hq
  · exact List.mem_singleton.mp hq ▸ hp

/-- The check passes what is in order behind what is in order. -/
theorem checkPresets_ok_iff (hbefore : Orderly before) (hseen : ∀ q ∈ before, ∃ s, q.2.name = .str s)
    (hnames : ∀ q ∈ l, ∃ s, q.2.name = .str s) : checkPresets (seen before) l = .ok () ↔ Orderly (before ++ l) := by
  induction l generalizing before with
  | nil => simpa [checkPresets] using hbefore
  | cons p rest ih =>
    obtain ⟨hname, hnames⟩ := List.forall_mem_cons.mp hnames
    rw [List.append_cons]
    rcases orderly_or_offends hbefore p with horderly | ⟨fault, hoffends⟩
    · rw [checkPresets_orderly hseen hname horderly, ih horderly (forall_concat hseen hname) hnames]
    · rw [checkPresets_offends hseen hname hoffends]
      constructor
      · rintro ⟨⟩
      · exact fun h => absurd h.left hoffends.not_orderly

/-- The first of some presets that offends behind others, with those between in order. -/
def FirstOffence (before l : List (Int × ShaderConfig)) (fault : Fault) : Prop :=
  ∃ between p after, l = between ++ p :: after ∧ Orderly (before ++ between) ∧ Offends (before ++ between) p fault

theorem firstOffence_of_orderly (h : Orderly (before ++ [p])) :
    FirstOffence before (p :: l) fault ↔ FirstOffence (before ++ [p]) l fault := by
  constructor
  · rintro ⟨between, q, after, hl, hbetween, hq⟩
    cases between with
    | nil =>
      obtain ⟨rfl, rfl⟩ := List.cons.inj hl
      rw [List.append_nil] at hq
      exact absurd h hq.not_orderly
    | cons p' between =>
      obtain ⟨rfl, rfl⟩ := List.cons.inj hl
      rw [List.append_cons] at hbetween hq
      exact ⟨between, q, after, rfl, hbetween, hq⟩
  · rintro ⟨between, q, after, rfl, hbetween, hq⟩
    rw [← List.append_cons] at hbetween hq
    exact ⟨p :: between, q, after, rfl, hbetween, hq⟩

theorem firstOffence_of_offends {fault' : Fault} (hbefore : Orderly before) (h : Offends before p fault) :
    FirstOffence before (p :: l) fault' ↔ fault = fault' := by
  constructor
  · rintro ⟨between, q, after, hl, hbetween, hq⟩
    cases between with
    | nil =>
      obtain ⟨rfl, rfl⟩ := List.cons.inj hl
      rw [List.append_nil] at hq
      exact h.unique hq
    | cons p' between =>
      obtain ⟨rfl, rfl⟩ := List.cons.inj hl
      rw [List.append_cons] at hbetween
      exact absurd hbetween.left h.not_orderly
  · rintro rfl
    exact ⟨[], p, l, rfl, by rwa [List.append_nil], by rwa [List.append_nil]⟩

/-- The check ends with the first preset that offends, as far as that can be told. -/
theorem checkPresets_error_iff (hbefore : Orderly before) (hseen : ∀ q ∈ before, ∃ s, q.2.name = .str s)
    (hnames : ∀ q ∈ l, ∃ s, q.2.name = .str s) :
    checkPresets (seen before) l = .error fault ↔ ∃ offence, FirstOffence before l offence ∧ fault = offence.told := by
  induction l generalizing before with
  | nil => simp [checkPresets, FirstOffence]
  | cons p rest ih =>
    obtain ⟨hname, hnames⟩ := List.forall_mem_cons.mp hnames
    rcases orderly_or_offends hbefore p with horderly | ⟨fault', hoffends⟩
    · simp only [firstOffence_of_orderly horderly]
      rw [checkPresets_orderly hseen hname horderly, ih horderly (forall_concat hseen hname) hnames]
    · simp only [firstOffence_of_offends hbefore hoffends, exists_eq_left']
      rw [checkPresets_offends hseen hname hoffends, Except.error.injEq, eq_comm]

/-! ## The registry of a catalog -/

theorem putPreset_of_not_mem {key : Int} {c : ShaderConfig} (h : key ∉ l.map (·.1)) :
    putPreset key c l = l ++ [(key, c)] := by
  induction l with
  | nil => rfl
  | cons q rest ih =>
    have hne : q.1 ≠ key := fun heq => h (heq ▸ List.mem_cons_self)
    rw [putPreset, if_neg hne, ih fun hm => h (List.mem_cons_of_mem _ hm)]
    rfl

theorem filed_of_nodup (h : (catalog.map (·.1)).Nodup) : filed catalog = catalog := by
  suffices hs : ∀ l : List (Int × ShaderConfig), ((l ++ catalog).map (·.1)).Nodup →
      catalog.foldl (fun l p => putPreset p.1 p.2 l) l = l ++ catalog from hs [] h
  clear h
  induction catalog with
  | nil => exact fun l _ => (List.append_nil l).symm
  | cons p rest ih =>
    intro l h
    have hp : p.1 ∉ l.map (·.1) := by
      rw [List.map_append, List.nodup_append] at h
      exact fun hm => h.2.2 _ hm _ List.mem_cons_self rfl
    rw [List.append_cons] at h ⊢
    rw [List.foldl_cons, putPreset_of_not_mem hp, ih _ h]

theorem ascending_eq_of_perm (h : (catalog.map (·.1)).Nodup) (hperm : other.Perm catalog) :
    ascending other = ascending catalog := by
  have hother : (other.map (·.1)).Nodup := (hperm.map _).nodup_iff.mpr h
  refine List.Perm.eq_of_pairwise (fun p q _ _ hpq hqp => ?_) (List.pairwise_map.mp (ascending_keys hother))
    (List.pairwise_map.mp (ascending_keys h)) ((ascending_perm other).trans (hperm.trans (ascending_perm catalog).symm))
  omega

theorem ofCatalog_ok_iff {pairs : List (Int × ShaderConfig)} {strict : Bool} {logPath : Option String} {r : Registry} :
    ofCatalog pairs strict logPath = .ok r ↔
      checkCatalog (filed pairs) = .ok () ∧ r = ⟨ascending (filed pairs), strict, logPath.filter (· != "")⟩ := by
  constructor
  · intro h
    obtain ⟨⟨⟩, hcheck, h⟩ := Outcome.bind_eq_ok.mp h
    cases h
    exact ⟨hcheck, rfl⟩
  · rintro ⟨hcheck, rfl⟩
    exact Outcome.bind_eq_ok.mpr ⟨(), hcheck, rfl⟩

theorem ofCatalog_error_iff {pairs : List (Int × ShaderConfig)} {strict : Bool} {logPath : Option String} :
    ofCatalog pairs strict logPath = .error fault ↔ checkCatalog (filed pairs) = .error fault := by
  show (checkCatalog (filed pairs) >>= _) = _ ↔ _
  cases checkCatalog (filed pairs) with
  | ok _ => exact ⟨(nomatch ·), (nomatch ·)⟩
  | error fault' => exact ⟨fun h => by cases h; rfl, fun h => by cases h; rfl⟩

theorem checkCatalog_eq (catalog : List (Int × ShaderConfig)) : checkCatalog catalog =
    if 0 ∈ catalog.map (·.1) then checkPresets (seen []) catalog else .error .noDefaultShader := by
  rw [checkCatalog]
  split
  · rename_i hnone
    rw [if_neg (lookup_eq_none_iff.mp (Option.isNone_iff_eq_none.mp hnone))]
  · rename_i hsome
    rw [if_pos (not_not.mp fun hzero => hsome (Option.isNone_iff_eq_none.mpr (lookup_eq_none_iff.mpr hzero)))]
    rfl

section Catalog

variable (hnames : ∀ p ∈ catalog, ∃ s, p.2.name = .str s)
include hnames

theorem checkCatalog_ok_iff : checkCatalog catalog = .ok () ↔ 0 ∈ catalog.map (·.1) ∧ Orderly catalog := by
  rw [checkCatalog_eq]
  split
  · rename_i hzero
    rw [checkPresets_ok_iff orderly_nil (fun _ h => absurd h List.not_mem_nil) hnames]
    exact ⟨fun h => ⟨hzero, h⟩, And.right⟩
  · rename_i hzero
    exact ⟨(nomatch ·), fun h => absurd h.1 hzero⟩

theorem checkCatalog_error_iff :
    checkCatalog catalog = .error fault ↔ ∃ offence, Refused catalog offence ∧ fault = offence.told := by
  rw [checkCatalog_eq]
  split
  · rename_i hzero
    rw [checkPresets_error_iff orderly_nil (fun _ h => absurd h List.not_mem_nil) hnames]
    refine exists_congr fun offence => and_congr_left fun _ => ⟨?_, ?_⟩
    · rintro ⟨before, p, after, hcatalog, hbefore, hoffends⟩
      exact .preset before p after hzero hcatalog hbefore hoffends
    · rintro (hmissing | ⟨before, p, after, _, hcatalog, hbefore, hoffends⟩)
      · exact absurd hzero hmissing
      · exact ⟨before, p, after, hcatalog, hbefore, hoffends⟩
  · rename_i hmissing
    constructor
    · rintro ⟨⟩
      exact ⟨_, .noDefault hmissing, rfl⟩
    · rintro ⟨_, _ | ⟨_, _, _, hzero⟩, rfl⟩
      · rfl
      · exact absurd hzero hmissing

/-- A refusal is a fault of the catalog and says what it is for, unless it would show a key or an id that
cannot be written out; a name can always be, being text. -/
theorem Refused.told (h : Refused catalog fault) : fault.isOfConfig = true ∧ (∃ text, fault.message? = some text) ∧
    (fault.told = fault ∨ (fault.told = .unprintable ∧ ∃ p ∈ catalog, fault = .misfiledPreset p.1 p.2.id ∧
      ((Value.int p.1).isPrintable = false ∨ p.2.id.isPrintable = false))) := by
  cases h with
  | noDefault => exact ⟨rfl, ⟨_, rfl⟩, Or.inl rfl⟩
  | preset before p after _ hcatalog _ hoffends =>
    have hp : p ∈ catalog := hcatalog ▸ List.mem_append_right _ List.mem_cons_self
    cases hoffends with
    | misfiled =>
      refine ⟨rfl, ⟨_, rfl⟩, (Fault.told_cases _).imp And.left fun ⟨htold, v, hv, hlong⟩ => ⟨htold, p, hp, rfl, ?_⟩⟩
      rcases List.mem_cons.mp hv with rfl | hv
      · exact Or.inl hlong
      · exact Or.inr (List.mem_singleton.mp hv ▸ hlong)
    | repeated =>
      obtain ⟨s, hs⟩ := hnames p hp
      exact ⟨rfl, ⟨_, rfl⟩, Or.inl (Fault.told_of_printable (List.forall_mem_singleton.mpr (hs ▸ rfl)))⟩

end Catalog

/-- A registry is made of exactly the catalogs that have shader 0, every preset under its id and no name
twice, and in every order of the entries the same one. Any other catalog is refused for the missing shader
0, else for its first preset that offends, and told so unless a key or an id is too long for that. -/
theorem ofCatalog_verdict (strict : Bool) (logPath : Option String) (hkeys : (catalog.map (·.1)).Nodup)
    (hnames : ∀ p ∈ catalog, ∃ s, p.2.name = .str s) :
    ((∃ r, ofCatalog catalog strict logPath = .ok r) ↔ 0 ∈ catalog.map (·.1) ∧ Orderly catalog) ∧
    (∀ other, other.Perm catalog →
      ∀ r, ofCatalog other strict logPath = .ok r ↔ ofCatalog catalog strict logPath = .ok r) ∧
    (∀ fault, ofCatalog catalog strict logPath = .error fault ↔
      ∃ offence, Refused catalog offence ∧ fault = offence.told) ∧
    ∀ offence, Refused catalog offence → offence.isOfConfig = true ∧ (∃ text, offence.message? = some text) ∧
      (offence.told = offence ∨ (offence.told = .unprintable ∧
        ∃ p ∈ catalog, offence = .misfiledPreset p.1 p.2.id ∧
          ((Value.int p.1).isPrintable = false ∨ p.2.id.isPrintable = false))) := by
  have hfiled := filed_of_nodup hkeys
  refine ⟨?_, fun other hperm r => ?_, fun fault => ?_, fun offence => Refused.told hnames⟩
  · simp only [ofCatalog_ok_iff, hfiled, checkCatalog_ok_iff hnames, exists_and_left, exists_eq, and_true]
  · have hother : filed other = other := filed_of_nodup ((hperm.map _).nodup_iff.mpr hkeys)
    have hnames' : ∀ p ∈ other, ∃ s, p.2.name = .str s := fun p hp => hnames p (hperm.mem_iff.mp hp)
    have horder : Orderly other ↔ Orderly catalog := ⟨fun h => h.perm hperm, fun h => h.perm hperm.symm⟩
    rw [ofCatalog_ok_iff, ofCatalog_ok_iff, hfiled, hother, checkCatalog_ok_iff hnames, checkCatalog_ok_iff hnames',
      (hperm.map _).mem_iff, horder, ascending_eq_of_perm hkeys hperm]
  · rw [ofCatalog_error_iff, hfiled, checkCatalog_error_iff hnames]

/-- Preset 3 has another id, and it and preset 5 have names that were given before. -/
def tangledCatalog : List (Int × ShaderConfig) := [
  (7, smallConfig 7 "SEVEN" "stippled"),
  (3, smallConfig 4 "SEVEN" "stippled"),
  (0, smallConfig 0 "ZERO" "metaballs"),
  (5, smallConfig 5 "ZERO" "metaballs")]

/-- The catalog in order is accepted in any order; the tangled one is refused for the id of preset 3, and
the other way round for the name that presets 5 and 0 have. -/
theorem tangledCatalog_refused : (∃ r, ofCatalog smallCatalog true none = .ok r) ∧
    (∃ r, ofCatalog smallCatalog.reverse true none = .ok r) ∧
    ofCatalog tangledCatalog true none = .error (.misfiledPreset 3 (.int 4)) ∧
    ofCatalog tangledCatalog.reverse true none = .error (.repeatedName (.str "ZERO")) := by
  have hkeys : (tangledCatalog.map (·.1)).Nodup := by decide
  have hnames : ∀ p ∈ tangledCatalog, ∃ s, p.2.name = .str s := by simp [tangledCatalog, smallConfig]
  have hsmall : 0 ∈ smallCatalog.map (·.1) ∧ Orderly smallCatalog :=
    ⟨by decide, by decide +kernel, by simp [smallCatalog, smallConfig]⟩
  have hsmallKeys : (smallCatalog.map (·.1)).Nodup := by decide
  have hsmallNames : ∀ p ∈ smallCatalog, ∃ s, p.2.name = .str s := by simp [smallCatalog, smallConfig]
  obtain ⟨haccepted, hanyOrder, -, -⟩ := ofCatalog_verdict true none hsmallKeys hsmallNames
  obtain ⟨r, hr⟩ := haccepted.mpr hsmall
  refine ⟨⟨r, hr⟩, ⟨r, (hanyOrder _ (List.reverse_perm _) r).mpr hr⟩, ?_, ?_⟩
  · refine ((ofCatalog_verdict true none hkeys hnames).2.2.1 _).mpr ⟨.misfiledPreset 3 (.int 4), ?_, rfl⟩
    exact .preset [(7, smallConfig 7 "SEVEN" "stippled")] (3, smallConfig 4 "SEVEN" "stippled") _ (by decide) rfl
      ⟨by decide +kernel, by simp⟩ (.misfiled (by decide +kernel))
  · refine ((ofCatalog_verdict true none ?_ ?_).2.2.1 _).mpr ⟨.repeatedName (.str "ZERO"), ?_, rfl⟩
    · decide
    · simp [tangledCatalog, smallConfig]
    · exact .preset [(5, smallConfig 5 "ZERO" "metaballs")] (0, smallConfig 0 "ZERO" "metaballs") _ (by decide) rfl
        ⟨by decide +kernel, by simp⟩ (.repeated (by decide +kernel) (by simp [smallConfig]))

/-- Preset 5 has an id that is too long to be written out. -/
def longIdCatalog : List (Int × ShaderConfig) := [
  (0, smallConfig 0 "ZERO" "metaballs"),
  (5, { smallConfig 5 "FIVE" "stippled" with id := .int Value.longNumber })]

/-- The preset stands under another key than its id, and that is not what the catalog is refused for. -/
theorem longIdCatalog_refused : Refused longIdCatalog (.misfiledPreset 5 (.int Value.longNumber)) ∧
    ofCatalog longIdCatalog true none = .error .unprintable := by
  have hid : (Value.int 5).equals (.int Value.longNumber) = false := by decide +kernel
  have hbefore : Orderly [(0, smallConfig 0 "ZERO" "metaballs")] := ⟨by decide +kernel, List.nodup_singleton _⟩
  have hoffends : Offends [(0, smallConfig 0 "ZERO" "metaballs")]
      (5, { smallConfig 5 "FIVE" "stippled" with id := .int Value.longNumber })
      (.misfiledPreset 5 (.int Value.longNumber)) := .misfiled hid
  refine ⟨.preset _ _ [] (by decide) rfl hbefore hoffends, ?_⟩
  have hfiled : filed longIdCatalog = longIdCatalog := filed_of_nodup (by decide)
  rw [ofCatalog_error_iff, hfiled, checkCatalog_eq, if_pos (by decide)]
  have hcheck : checkPresets (seen []) longIdCatalog =
      checkPresets (seen [(0, smallConfig 0 "ZERO" "metaballs")])
        [(5, { smallConfig 5 "FIVE" "stippled" with id := .int Value.longNumber })] :=
    checkPresets_orderly (fun _ h => absurd h List.not_mem_nil) ⟨_, rfl⟩ hbefore _
  have hshown : Value.int Value.longNumber ∈ (Fault.misfiledPreset 5 (.int Value.longNumber)).shown :=
    List.mem_cons_of_mem _ List.mem_cons_self
  rw [hcheck, checkPresets_offends (by simp [smallConfig]) ⟨_, rfl⟩ hoffends,
    Fault.told_of_unprintable hshown Value.longNumber_unprintable]

end ShaderLoom.Registry
