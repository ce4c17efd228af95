/-
  ShaderLoom.Proofs.Registry.Catalog — the presets of a registry.

  A catalog is filed key by key, a repeated key taking the later preset, so it has every key once
  (`nodup_keys_filed`). What a registry is built of is the filed catalog in another order
  (`presets_perm`), and the checks on it hold of the registry's presets (`Checked`,
  `checked_of_catalog`): each stands under its id, no two have equal names, and there is shader 0.
-/

import ShaderLoom.Proofs.Outcome
import ShaderLoom.Proofs.Value.Equality
import ShaderLoom.Registry

namespace ShaderLoom.Registry

open Outcome

/-! ## Looking up -/

section Lookup

variable {α : Type} {id : Int} {a : α} {l l' : List (Int × α)}

theorem mem_of_lookup (h : lookup id l = some a) : (id, a) ∈ l := by
  obtain ⟨p, hp, rfl⟩ := Option.map_eq_some_iff.mp h
  have hid := List.find?_some hp
  exact eq_of_beq hid ▸ List.mem_of_find?_eq_some hp

theorem lookup_of_mem (hn : (l.map (·.1)).Nodup) (h : (id, a) ∈ l) : lookup id l = some a := by
  induction l with
  | nil => cases h
  | cons p rest ih =>
    obtain ⟨hp, hrest⟩ := List.nodup_cons.mp hn
    rcases List.mem_cons.mp h with rfl | h
    · simp [lookup]
    · have hid : id ∈ rest.map (·.1) := List.mem_map.mpr ⟨_, h, rfl⟩
      have hne : p.1 ≠ id := by
        rintro rfl
        exact hp hid
      simpa [lookup, hne] using ih hrest h

theorem lookup_eq_some_iff (hn : (l.map (·.1)).Nodup) : lookup id l = some a ↔ (id, a) ∈ l :=
  ⟨mem_of_lookup, lookup_of_mem hn⟩

theorem lookup_eq_none_iff : lookup id l = none ↔ id ∉ l.map (·.1) := by
  simp only [lookup, Option.map_eq_none_iff, List.find?_eq_none, beq_iff_eq, List.mem_map]
  exact ⟨fun h ⟨p, hp, hid⟩ => h p hp hid, fun h p hp hid => h ⟨p, hp, hid⟩⟩

theorem lookup_of_perm (h : l.Perm l') (hn : (l.map (·.1)).Nodup) : lookup id l = lookup id l' := by
  have hn' : (l'.map (·.1)).Nodup := (h.map _).nodup hn
  refine Option.ext fun a => ?_
  rw [lookup_eq_some_iff hn, lookup_eq_some_iff hn', h.mem_iff]

end Lookup

/-! ## Filing -/

/-- A catalog key by key, a repeated key taking the later preset. -/
def filed (pairs : List (Int × ShaderConfig)) : List (Int × ShaderConfig) :=
  pairs.foldl (fun l (key, c) => putPreset key c l) []

theorem mem_keys_putPreset {key other : Int} {c : ShaderConfig} {l : List (Int × ShaderConfig)}
    (h : other ∈ (putPreset key c l).map (·.1)) : other = key ∨ other ∈ l.map (·.1) := by
  induction l with
  | nil => exact Or.inl (List.mem_singleton.mp h)
  | cons p rest ih =>
    rw [putPreset] at h
    split at h
    · exact Or.inr h
    · rcases List.mem_cons.mp h with h | h
      · exact Or.inr (h ▸ List.mem_cons_self)
      · exact (ih h).imp_right (List.mem_cons_of_mem _)

theorem nodup_keys_putPreset {key : Int} {c : ShaderConfig} {l : List (Int × ShaderConfig)}
    (h : (l.map (·.1)).Nodup) : ((putPreset key c l).map (·.1)).Nodup := by
  induction l with
  | nil => simp [putPreset]
  | cons p rest ih =>
    obtain ⟨hp, hrest⟩ := List.nodup_cons.mp h
    rw [putPreset]
    split
    · exact h
    · rename_i hne
      refine List.nodup_cons.mpr ⟨fun hmem => ?_, ih hrest⟩
      exact (mem_keys_putPreset hmem).elim hne hp

theorem nodup_keys_filed (pairs : List (Int × ShaderConfig)) : ((filed pairs).map (·.1)).Nodup := by
  suffices h : ∀ l : List (Int × ShaderConfig), (l.map (·.1)).Nodup →
      ((pairs.foldl (fun l (key, c) => putPreset key c l) l).map (·.1)).Nodup from h [] List.nodup_nil
  induction pairs with
  | nil => exact fun l h => h
  | cons p rest ih => exact fun l h => ih _ (nodup_keys_putPreset h)

/-! ## Checking -/

/-- A catalog as the checks leave it. -/
structure Checked (presets : List (Int × ShaderConfig)) : Prop where
  standard : ∃ c, lookup 0 presets = some c
  underId : ∀ p ∈ presets, (Value.int p.1).equals p.2.id = true
  keyed : ∀ p ∈ presets, p.2.name.isKey = true
  once : ∀ p ∈ presets, ∀ q ∈ presets, p.2.name.equals q.2.name = true → p = q

theorem checkPresets_ok {names : List Value} {l : List (Int × ShaderConfig)} (h : checkPresets names l = .ok ()) :
    (∀ p ∈ l, (Value.int p.1).equals p.2.id = true) ∧ (∀ p ∈ l, p.2.name.isKey = true) ∧
      (∀ p ∈ l, ∀ name ∈ names, name.equals p.2.name = false) ∧
        l.Pairwise fun p q => p.2.name.equals q.2.name = false := by
  induction l generalizing names with
  | nil => simp
  | cons p rest ih =>
    rw [checkPresets] at h
    split at h
    · cases h
    split at h
    · cases h
    split at h
    · cases h
    rename_i hid hkey hfresh
    obtain ⟨hids, hkeys, hnames, hpairs⟩ := ih h
    simp only [Bool.not_eq_true, Bool.not_eq_false'] at hid hkey hfresh
    refine ⟨List.forall_mem_cons.mpr ⟨hid, hids⟩, List.forall_mem_cons.mpr ⟨hkey, hkeys⟩, ?_, ?_⟩
    · refine List.forall_mem_cons.mpr ⟨fun name hname => ?_, fun q hq name hname => ?_⟩
      · exact Bool.eq_false_iff.mpr (List.any_eq_false.mp hfresh name hname)
      · exact hnames q hq name (List.mem_cons_of_mem _ hname)
    · exact List.pairwise_cons.mpr ⟨fun q hq => hnames q hq p.2.name List.mem_cons_self, hpairs⟩

theorem eq_of_pairwise_names {l : List (Int × ShaderConfig)} (hkeys : ∀ p ∈ l, p.2.name.isKey = true)
    (hpairs : l.Pairwise fun p q => p.2.name.equals q.2.name = false) {p q : Int × ShaderConfig} (hp : p ∈ l)
    (hq : q ∈ l) (h : p.2.name.equals q.2.name = true) : p = q := by
  induction hpairs with
  | nil => cases hp
  | @cons a rest ha hrest ih =>
    obtain ⟨hkey, hkeys⟩ := List.forall_mem_cons.mp hkeys
    rcases List.mem_cons.mp hp with hpa | hp <;> rcases List.mem_cons.mp hq with hqa | hq
    · rw [hpa, hqa]
    · rw [hpa, ha q hq] at h
      cases h
    · have hsymm := Value.equals_symm (hkeys p hp) (hqa ▸ hkey) h
      rw [hqa, ha p hp] at hsymm
      cases hsymm
    · exact ih hkeys hp hq

theorem checked_of_checkCatalog {catalog : List (Int × ShaderConfig)} (h : checkCatalog catalog = .ok ()) :
    Checked catalog := by
  rw [checkCatalog] at h
  split at h
  · cases h
  · rename_i hstandard
    obtain ⟨hids, hkeys, -, hpairs⟩ := checkPresets_ok h
    exact {
      standard := Option.ne_none_iff_exists'.mp (by simpa using hstandard)
      underId := hids
      keyed := hkeys
      once := fun p hp q hq => eq_of_pairwise_names hkeys hpairs hp hq }

/-! ## The registry of a catalog -/

theorem ascending_perm (catalog : List (Int × ShaderConfig)) : (ascending catalog).Perm catalog :=
  List.mergeSort_perm _ _

theorem ascending_keys {catalog : List (Int × ShaderConfig)} (h : (catalog.map (·.1)).Nodup) :
    ((ascending catalog).map (·.1)).Pairwise (· < ·) := by
  have hle : (ascending catalog).Pairwise fun a b => decide (a.1 ≤ b.1) = true :=
    List.pairwise_mergeSort (fun a b c hab hbc => by simp at *; omega) (fun a b => by simp; omega) catalog
  have hn : ((ascending catalog).map (·.1)).Nodup := ((ascending_perm catalog).symm.map _).nodup h
  rw [List.pairwise_map]
  refine (hle.and (List.pairwise_map.mp hn)).imp fun ⟨hab, hne⟩ => ?_
  have := of_decide_eq_true hab
  omega

variable {pairs : List (Int × ShaderConfig)} {strict : Bool} {logPath : Option String} {r : Registry}

theorem ofCatalog_ok (h : ofCatalog pairs strict logPath = .ok r) :
    Checked (filed pairs) ∧ r = ⟨ascending (filed pairs), strict, logPath.filter (· != "")⟩ := by
  obtain ⟨⟨⟩, hcheck, h⟩ := bind_eq_ok.mp h
  cases h
  exact ⟨checked_of_checkCatalog hcheck, rfl⟩

end ShaderLoom.Registry
