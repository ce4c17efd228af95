/-
  ShaderLoom.Value.Entries — keyed entries in the order they were first written.

  Putting a value under a key that is there already replaces the value where it stands; a new
  key goes to the end (`keys_put_of_mem`, `put_of_not_mem`). `ofPairs` puts pairs one after
  another, so a repeated key keeps its first place and takes its last value; it has every key once
  (`nodup_keys_ofPairs`) and leaves pairs under distinct keys as they are (`ofPairs_of_nodup`).
-/

namespace ShaderLoom

/-- Values under text keys, in order. -/
abbrev Entries (α : Type) := List (String × α)

namespace Entries

variable {α β : Type}

def keys (e : Entries α) : List String := e.map (·.1)

def get? (key : String) : Entries α → Option α
  | [] => none
  | (k, v) :: rest => if k = key then some v else get? key rest

def has (key : String) (e : Entries α) : Bool := (get? key e).isSome

def put (key : String) (value : α) : Entries α → Entries α
  | [] => [(key, value)]
  | (k, v) :: rest => if k = key then (k, value) :: rest else (k, v) :: put key value rest

def ofPairs (pairs : List (String × α)) : Entries α :=
  pairs.foldl (fun e (key, value) => put key value e) []

/-- The entries under respelled keys. -/
def mapKeys (f : String → String) (e : Entries α) : Entries α :=
  ofPairs (e.map fun (key, value) => (f key, value))

/-- The entries in the order of their keys. -/
def sorted (e : Entries α) : Entries α := e.mergeSort fun a b => decide (a.1 ≤ b.1)

/-! ## Keys -/

theorem keys_put_of_mem {key : String} {value : α} {e : Entries α} (h : key ∈ keys e) :
    keys (put key value e) = keys e := by
  induction e with
  | nil => cases h
  | cons p rest ih =>
    obtain ⟨k, v⟩ := p
    simp only [put]
    split
    · rfl
    · rename_i hk
      rcases List.mem_cons.mp h with h | h
      · exact absurd h.symm hk
      · simpa [keys] using ih h

theorem put_of_not_mem {key : String} {value : α} {e : Entries α} (h : key ∉ keys e) :
    put key value e = e ++ [(key, value)] := by
  induction e with
  | nil => rfl
  | cons p rest ih =>
    obtain ⟨k, v⟩ := p
    have hk : k ≠ key := fun e => h (by simp [keys, e])
    have hr : key ∉ keys rest := fun m => h (List.mem_cons_of_mem _ m)
    simpa [put, hk] using ih hr

theorem keys_put_of_not_mem {key : String} {value : α} {e : Entries α} (h : key ∉ keys e) :
    keys (put key value e) = keys e ++ [key] := by
  rw [put_of_not_mem h]
  exact List.map_append

theorem get?_put_self (key : String) (value : α) (e : Entries α) :
    get? key (put key value e) = some value := by
  induction e with
  | nil => simp [put, get?]
  | cons p rest ih =>
    obtain ⟨k, v⟩ := p
    simp only [put]
    split <;> rename_i hk
    · simp [get?, hk]
    · simp [get?, hk, ih]

theorem get?_put_of_ne {key other : String} (h : other ≠ key) (value : α) (e : Entries α) :
    get? other (put key value e) = get? other e := by
  induction e with
  | nil => simp [put, get?, h.symm]
  | cons p rest ih =>
    obtain ⟨k, v⟩ := p
    simp only [put]
    split <;> rename_i hk
    · subst hk; simp [get?, h.symm]
    · simp [get?, ih]

theorem mem_of_get? {key : String} {value : α} {e : Entries α} (h : get? key e = some value) :
    (key, value) ∈ e := by
  induction e with
  | nil => cases h
  | cons p rest ih =>
    obtain ⟨k, v⟩ := p
    rw [get?] at h
    split at h
    · rename_i hk
      cases h
      exact hk ▸ List.mem_cons_self
    · exact List.mem_cons_of_mem _ (ih h)

theorem get?_of_mem {key : String} {value : α} {e : Entries α} (hn : (keys e).Nodup)
    (h : (key, value) ∈ e) : get? key e = some value := by
  induction e with
  | nil => cases h
  | cons p rest ih =>
    obtain ⟨k, v⟩ := p
    obtain ⟨hk, hrest⟩ := List.nodup_cons.mp hn
    rcases List.mem_cons.mp h with h | h
    · cases h
      simp [get?]
    · have hkey : key ∈ keys rest := List.mem_map_of_mem (f := Prod.fst) h
      have hne : k ≠ key := fun e => hk (e ▸ hkey)
      rw [get?, if_neg hne]
      exact ih hrest h

theorem has_iff {key : String} {e : Entries α} : has key e = true ↔ ∃ value, get? key e = some value :=
  Option.isSome_iff_exists

theorem has_iff_mem_keys {key : String} {e : Entries α} : has key e = true ↔ key ∈ keys e := by
  induction e with
  | nil => simp [has, get?, keys]
  | cons p rest ih =>
    obtain ⟨k, v⟩ := p
    have hkeys : keys ((k, v) :: rest) = k :: keys rest := rfl
    rw [hkeys, List.mem_cons, ← ih, has, get?]
    split
    · rename_i hk
      simp [hk]
    · rename_i hk
      simp [has, Ne.symm hk]

/-! ## Entries put one after another -/

theorem nodup_keys_put {key : String} {value : α} {e : Entries α} (h : (keys e).Nodup) :
    (keys (put key value e)).Nodup := by
  by_cases hk : key ∈ keys e
  · rwa [keys_put_of_mem hk]
  · rw [keys_put_of_not_mem hk, List.nodup_append]
    refine ⟨h, by simp, fun k hm other ho e => hk ?_⟩
    rwa [← List.mem_singleton.mp ho, ← e]

theorem mem_put {key : String} {value : α} {e : Entries α} {p : String × α} (h : p ∈ put key value e) :
    p = (key, value) ∨ p ∈ e := by
  induction e with
  | nil => simpa [put] using h
  | cons q rest ih =>
    obtain ⟨k, v⟩ := q
    rw [put] at h
    split at h
    · rename_i hk
      rcases List.mem_cons.mp h with h | h
      · exact Or.inl (hk ▸ h)
      · exact Or.inr (List.mem_cons_of_mem _ h)
    · rcases List.mem_cons.mp h with h | h
      · exact Or.inr (h ▸ List.mem_cons_self)
      · exact (ih h).imp_right (List.mem_cons_of_mem _)

/-- What putting pairs one after another keeps, each put keeps. -/
theorem ofPairs_induction {motive : Entries α → Prop} {pairs : List (String × α)} (nil : motive [])
    (put : ∀ e, ∀ p ∈ pairs, motive e → motive (put p.1 p.2 e)) : motive (ofPairs pairs) := by
  suffices h : ∀ e, motive e → motive (pairs.foldl (fun e (key, value) => Entries.put key value e) e) from
    h [] nil
  induction pairs with
  | nil => exact fun e h => h
  | cons p rest ih =>
    intro e h
    exact ih (fun e q hq => put e q (List.mem_cons_of_mem _ hq)) _ (put e p List.mem_cons_self h)

theorem nodup_keys_ofPairs (pairs : List (String × α)) : (keys (ofPairs pairs)).Nodup :=
  ofPairs_induction (motive := fun e => (keys e).Nodup) List.nodup_nil fun _ _ _ => nodup_keys_put

theorem mem_ofPairs {pairs : List (String × α)} {p : String × α} (h : p ∈ ofPairs pairs) : p ∈ pairs := by
  refine ofPairs_induction (motive := fun e => ∀ p ∈ e, p ∈ pairs) (by simp) ?_ p h
  intro e q hq ih p hp
  rcases mem_put hp with rfl | hp
  · exact hq
  · exact ih p hp

theorem ofPairs_of_nodup {pairs : List (String × α)} (h : (keys pairs).Nodup) : ofPairs pairs = pairs := by
  suffices hs : ∀ e : Entries α, (keys (e ++ pairs)).Nodup →
      pairs.foldl (fun e (key, value) => put key value e) e = e ++ pairs from hs [] h
  clear h
  induction pairs with
  | nil => simp
  | cons p rest ih =>
    intro e h
    have hp : p.1 ∉ keys e := by
      intro hm
      rw [keys, List.map_append, List.map_cons] at h
      exact (List.nodup_append.mp h).2.2 _ hm _ List.mem_cons_self rfl
    have hrest : (keys ((e ++ [p]) ++ rest)).Nodup := by rwa [List.append_assoc]
    show rest.foldl _ (put p.1 p.2 e) = _
    rw [put_of_not_mem hp, ih _ hrest, List.append_assoc]
    rfl

theorem mapKeys_of_fixed {f : String → String} {e : Entries α} (hn : (keys e).Nodup)
    (hf : ∀ key ∈ keys e, f key = key) : mapKeys f e = e := by
  have hmap : e.map (fun (key, value) => (f key, value)) = e := by
    refine (List.map_congr_left fun p hp => ?_).trans (List.map_id e)
    exact Prod.ext (hf p.1 (List.mem_map_of_mem hp)) rfl
  rw [mapKeys, hmap, ofPairs_of_nodup hn]

end Entries

end ShaderLoom
