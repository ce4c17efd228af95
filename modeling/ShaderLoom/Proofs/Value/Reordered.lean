/-
  ShaderLoom.Proofs.Value.Reordered — values that differ in the order of keys only.

  Two values are `Reordered` when one becomes the other by putting the entries of its mappings, at
  any depth, in another order. Every value is so related to the one whose keys stand in their
  order throughout (`reordered_sortKeys`). Under each key they have values that are so related again
  (`get?_reordered`, `Reordered.of_map`). Entries under distinct keys have one sorted order
  (`Entries.sorted_eq_of_perm`), which does not look at what stands under the keys
  (`Entries.sorted_mapValues`), and read the same by key in any order (`Entries.get?_of_perm`).
-/

import Mathlib.Data.List.Forall2
import Mathlib.Data.List.Nodup
import ShaderLoom.Value.Basic

namespace ShaderLoom

/-! ## Entries in the order of their keys -/

namespace Entries

variable {α β : Type} {a b e : Entries α}

def mapValues (f : α → β) (e : Entries α) : Entries β := e.map fun p => (p.1, f p.2)

/-- The values without their keys. -/
def values (e : Entries α) : List α := e.map (·.2)

theorem mapValues_congr {f : α → β} (hkeys : keys a = keys b) (hvalues : (values a).map f = (values b).map f) :
    mapValues f a = mapValues f b := by
  have hzip : ∀ e : Entries α, mapValues f e = (keys e).zip ((values e).map f) := by
    intro e
    rw [keys, values, List.map_map, List.zip_map']
    rfl
  rw [hzip, hzip, hkeys, hvalues]

theorem keys_mapValues (f : α → β) (e : Entries α) : keys (mapValues f e) = keys e := List.map_map

theorem sorted_perm (e : Entries α) : (sorted e).Perm e := List.mergeSort_perm e _

theorem nodup_keys_sorted (h : (keys e).Nodup) : (keys (sorted e)).Nodup :=
  ((sorted_perm e).map Prod.fst).nodup_iff.mpr h

theorem pairwise_sorted (e : Entries α) : (sorted e).Pairwise fun p q => decide (p.1 ≤ q.1) = true := by
  refine List.pairwise_mergeSort (fun p q r hpq hqr => ?_) (fun p q => ?_) e
  · rw [decide_eq_true_eq] at hpq hqr ⊢
    exact String.le_trans hpq hqr
  · rw [Bool.or_eq_true, decide_eq_true_eq, decide_eq_true_eq]
    exact String.le_total p.1 q.1

theorem sorted_eq_of_perm (h : (keys a).Nodup) (hperm : a.Perm b) : sorted a = sorted b := by
  refine List.Perm.eq_of_pairwise (fun p q hp hq hpq hqp => ?_) (pairwise_sorted a) (pairwise_sorted b)
    ((sorted_perm a).trans (hperm.trans (sorted_perm b).symm))
  have hq' : q ∈ a := hperm.mem_iff.mpr ((sorted_perm b).mem_iff.mp hq)
  exact List.inj_on_of_nodup_map h ((sorted_perm a).mem_iff.mp hp) hq'
    (String.le_antisymm (of_decide_eq_true hpq) (of_decide_eq_true hqp))

/-- What stands under a key does not depend on the order of the entries. -/
theorem get?_of_perm (h : (keys a).Nodup) (hperm : a.Perm b) (key : String) : get? key a = get? key b := by
  have hb : (keys b).Nodup := (hperm.map Prod.fst).nodup_iff.mp h
  refine Option.ext fun v => ?_
  constructor
  · intro hv
    exact get?_of_mem hb (hperm.mem_iff.mp (mem_of_get? hv))
  · intro hv
    exact get?_of_mem h (hperm.mem_iff.mpr (mem_of_get? hv))

theorem has_of_perm (h : (keys a).Perm (keys b)) (key : String) : has key a = has key b := by
  rw [Bool.eq_iff_iff, has_iff_mem_keys, has_iff_mem_keys]
  exact h.mem_iff

theorem sorted_mapValues (f : α → β) (e : Entries α) : sorted (mapValues f e) = mapValues f (sorted e) :=
  (List.map_mergeSort (f := fun p : String × α => (p.1, f p.2)) fun _ _ _ _ => rfl).symm

end Entries

namespace Value

variable {v w : Value} {items vs ws : List Value} {entries : Entries Value}

/-- Induction on values, with one case for the items of a list and one for the values of a mapping. -/
theorem induction {motive : Value → Prop} (null : motive .null) (bool : ∀ b, motive (.bool b))
    (int : ∀ n, motive (.int n)) (float : ∀ x, motive (.float x)) (str : ∀ s, motive (.str s))
    (list : ∀ items, (∀ v ∈ items, motive v) → motive (.list items))
    (map : ∀ entries, (∀ p ∈ entries, motive p.2) → motive (.map entries)) (v : Value) : motive v :=
  Value.rec (motive_1 := motive) (motive_2 := fun items => ∀ v ∈ items, motive v)
    (motive_3 := fun entries => ∀ p ∈ entries, motive p.2) (motive_4 := fun p => motive p.2)
    null bool int float str list map (fun _ h => nomatch h)
    (fun _ _ hv hvs => List.forall_mem_cons.mpr ⟨hv, hvs⟩) (fun _ h => nomatch h)
    (fun _ _ hp hps => List.forall_mem_cons.mpr ⟨hp, hps⟩) (fun _ _ hv => hv) v

theorem itemsKeyed_iff : itemsKeyed items = true ↔ ∀ v ∈ items, v.isKeyed = true := by
  induction items with
  | nil => simp [itemsKeyed]
  | cons v vs ih => simp [itemsKeyed, ih]

/-! ## Another order of keys -/

inductive Reordered : Value → Value → Prop where
  | refl (v : Value) : Reordered v v
  | list {vs ws : List Value} (h : List.Forall₂ Reordered vs ws) : Reordered (.list vs) (.list ws)
  | map {a b c : Entries Value} (hkeys : Entries.keys a = Entries.keys b)
    (h : List.Forall₂ Reordered (Entries.values a) (Entries.values b)) (hperm : b.Perm c) : Reordered (.map a) (.map c)

/-- Entries under one key, with values that differ in the order of keys only. -/
def ReorderedEntry (p q : String × Value) : Prop := p.1 = q.1 ∧ Reordered p.2 q.2

theorem reorderedEntries {a b : Entries Value} (hkeys : Entries.keys a = Entries.keys b)
    (h : List.Forall₂ Reordered (Entries.values a) (Entries.values b)) : List.Forall₂ ReorderedEntry a b := by
  induction a generalizing b with
  | nil =>
    cases b with
    | nil => exact .nil
    | cons q b => cases hkeys
  | cons p a ih =>
    cases b with
    | nil => cases hkeys
    | cons q b =>
      obtain ⟨hkey, hkeys⟩ := List.cons.inj hkeys
      obtain ⟨hvalue, hvalues⟩ := List.forall₂_cons.mp h
      exact .cons ⟨hkey, hvalue⟩ (ih hkeys hvalues)

/-- Under a key there is nothing in both, or there are values that differ in the order of keys only. -/
theorem get?_reordered {a b : Entries Value} (h : List.Forall₂ ReorderedEntry a b) (key : String) :
    Entries.get? key a = none ∧ Entries.get? key b = none ∨
      ∃ v w, Entries.get? key a = some v ∧ Entries.get? key b = some w ∧ Reordered v w := by
  induction h with
  | nil => exact Or.inl ⟨rfl, rfl⟩
  | @cons p q a b hpq _ ih =>
    obtain ⟨k, v⟩ := p
    obtain ⟨l, w⟩ := q
    obtain ⟨hkey, hvalue⟩ := hpq
    change k = l at hkey
    subst hkey
    unfold Entries.get?
    by_cases hk : k = key
    · rw [if_pos hk, if_pos hk]
      exact Or.inr ⟨v, w, rfl, rfl, hvalue⟩
    · rw [if_neg hk, if_neg hk]
      exact ih

/-- What holds no other values has no other order. -/
theorem Reordered.eq_of_isKey (h : Reordered v w) (hv : v.isKey = true) : w = v := by
  cases h with
  | refl => rfl
  | list | map => cases hv

/-- In another order of keys a mapping is still one, with each value under its key, reordered itself. -/
theorem Reordered.of_map {a : Entries Value} (h : Reordered (.map a) w) (hkeys : (Entries.keys a).Nodup) :
    ∃ c, w = .map c ∧ ∀ key v, Entries.get? key a = some v → ∃ w, Entries.get? key c = some w ∧ Reordered v w := by
  cases h with
  | refl => exact ⟨a, rfl, fun key v hv => ⟨v, hv, .refl v⟩⟩
  | @map _ b c hsame hvalues hperm =>
    refine ⟨c, rfl, fun key v hv => ?_⟩
    rcases get?_reordered (reorderedEntries hsame hvalues) key with ⟨hnone, -⟩ | ⟨v', w, hv', hw, hvw⟩
    · cases hnone.symm.trans hv
    · cases hv'.symm.trans hv
      rw [← Entries.get?_of_perm (hsame ▸ hkeys) hperm]
      exact ⟨w, hw, hvw⟩

mutual
/-- The value with the keys of every mapping in their order. -/
def sortKeys : Value → Value
  | .list items => .list (sortItems items)
  | .map entries => .map (Entries.sorted (sortEntries entries))
  | v => v
termination_by structural v => v

def sortItems : List Value → List Value
  | [] => []
  | v :: vs => sortKeys v :: sortItems vs
termination_by structural vs => vs

def sortEntries : List (String × Value) → List (String × Value)
  | [] => []
  | (key, v) :: vs => (key, sortKeys v) :: sortEntries vs
termination_by structural vs => vs
end

theorem sortItems_eq (items : List Value) : sortItems items = items.map sortKeys := by
  induction items with
  | nil => rfl
  | cons v vs ih => rw [sortItems, ih, List.map_cons]

theorem sortEntries_eq (entries : Entries Value) : sortEntries entries = Entries.mapValues sortKeys entries := by
  induction entries with
  | nil => rfl
  | cons p rest ih =>
    rw [sortEntries, ih]
    rfl

theorem reordered_sortKeys (v : Value) : Reordered v v.sortKeys := by
  induction v using Value.induction with
  | null => exact .refl _
  | bool b => exact .refl _
  | int n => exact .refl _
  | float x => exact .refl _
  | str s => exact .refl _
  | list items ih =>
    rw [sortKeys, sortItems_eq]
    exact .list (List.forall₂_map_right_iff.mpr (List.forall₂_same.mpr ih))
  | map entries ih =>
    rw [sortKeys, sortEntries_eq]
    have hvalues : List.Forall₂ Reordered (Entries.values entries)
        (Entries.values (Entries.mapValues sortKeys entries)) := by
      refine List.forall₂_map_left_iff.mpr (List.forall₂_map_right_iff.mpr (List.forall₂_map_right_iff.mpr ?_))
      exact List.forall₂_same.mpr ih
    exact .map (Entries.keys_mapValues sortKeys entries).symm hvalues (Entries.sorted_perm _).symm

end Value

end ShaderLoom
