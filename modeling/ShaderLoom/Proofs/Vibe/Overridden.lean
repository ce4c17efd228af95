/-
  ShaderLoom.Proofs.Vibe.Overridden — what a morph does to the uniform values of a frame.

  A morph comes last, over values that hold to the contract of the uniforms (`uniformValues_split`,
  `uniformValues_contract`), and every number that it gives takes the place of the value under its name
  (`exists_overridden`). It may name any uniform. Where it names a pair or a color the contract is broken,
  for a number stands there then (`contract_iff`); a time or a complexity changes but for the very number
  that was there. A morph that names the morph uniforms only changes these only (`uniformValues_overridden`).
-/

import ShaderLoom.Proofs.Outcome
import ShaderLoom.Vibe

namespace ShaderLoom

/-! ## Entries put over others -/

namespace Entries

variable {α : Type} {pairs : Entries α} {key : String}

theorem get?_of_not_mem_keys (h : key ∉ keys pairs) : get? key pairs = none := by
  rw [← has_iff_mem_keys, has, Bool.not_eq_true, Option.isSome_eq_false_iff, Option.isNone_iff_eq_none] at h
  exact h

/-- What was put under a key is found there, and without it what was there before. -/
theorem get?_foldl_put (hn : (keys pairs).Nodup) (key : String) (e : Entries α) :
    get? key (pairs.foldl (fun e (key, value) => put key value e) e) = (get? key pairs).or (get? key e) := by
  induction pairs generalizing e with
  | nil => rfl
  | cons p rest ih =>
    obtain ⟨k, v⟩ := p
    obtain ⟨hk, hrest⟩ := List.nodup_cons.mp hn
    rw [List.foldl_cons, ih hrest, get?]
    by_cases hkey : k = key
    · subst hkey
      rw [if_pos rfl, get?_of_not_mem_keys hk, get?_put_self]
      rfl
    · rw [if_neg hkey, get?_put_of_ne (Ne.symm hkey)]

end Entries

namespace Vibe

open Entries Outcome

variable {theme complexity time resolution morph : Value} {values base changes : Entries Value} {key : String}

/-! ## The contract -/

/-- A value of its kind for each uniform: the time and the complexity numbers, the resolution two of them, and
    three colors. -/
structure Contract (values : Entries Value) : Prop where
  time : ∃ x, get? "u_time" values = some (.float x)
  resolution : ∃ x y, get? "u_resolution" values = some (.list [.float x, .float y])
  complexity : ∃ x, get? "u_complexity" values = some (.float x)
  colorA : ∃ r g b, get? "u_colorA" values = some (.list [.float r, .float g, .float b])
  colorB : ∃ r g b, get? "u_colorB" values = some (.list [.float r, .float g, .float b])
  colorC : ∃ r g b, get? "u_colorC" values = some (.list [.float r, .float g, .float b])

/-- The uniforms of the contract. -/
def contractUniforms : List String := ["u_time", "u_resolution", "u_complexity", "u_colorA", "u_colorB", "u_colorC"]

def numberUniforms : List String := ["u_time", "u_complexity"]

def rowUniforms : List String := ["u_resolution", "u_colorA", "u_colorB", "u_colorC"]

theorem mem_contractUniforms : key ∈ contractUniforms ↔ key ∈ rowUniforms ∨ key ∈ numberUniforms := by
  simp only [contractUniforms, rowUniforms, numberUniforms, List.mem_cons, List.not_mem_nil, or_false]
  grind

theorem Contract.number (h : Contract base) (hkey : key ∈ numberUniforms) :
    ∃ x, get? key base = some (.float x) := by
  simp only [numberUniforms, List.mem_cons, List.not_mem_nil, or_false] at hkey
  obtain rfl | rfl := hkey
  · exact h.time
  · exact h.complexity

theorem Contract.row (h : Contract base) (hkey : key ∈ rowUniforms) :
    ∃ items, get? key base = some (.list items) := by
  simp only [rowUniforms, List.mem_cons, List.not_mem_nil, or_false] at hkey
  obtain rfl | rfl | rfl | rfl := hkey
  · obtain ⟨x, y, hvalue⟩ := h.resolution
    exact ⟨_, hvalue⟩
  · obtain ⟨r, g, b, hvalue⟩ := h.colorA
    exact ⟨_, hvalue⟩
  · obtain ⟨r, g, b, hvalue⟩ := h.colorB
    exact ⟨_, hvalue⟩
  · obtain ⟨r, g, b, hvalue⟩ := h.colorC
    exact ⟨_, hvalue⟩

/-- The morph is taken last, over what there is without one. -/
theorem uniformValues_split : uniformValues theme complexity time resolution morph = do
    let base ← uniformValues theme complexity time resolution .null
    let changes ← overrides morph
    return changes.foldl (fun values (key, v) => put key v values) base := by
  have hnull : overrides .null = .ok [] := rfl
  simp only [uniformValues, hnull, bind_assoc, pure_bind]
  rfl

/-- What a frame starts from. -/
theorem uniformValues_contract (h : uniformValues theme complexity time resolution .null = .ok base) :
    Contract base ∧ keys base = contractUniforms ++ keys morphAtRest := by
  obtain ⟨t, -, h⟩ := bind_eq_ok.mp h
  obtain ⟨⟨width, height⟩, -, h⟩ := bind_eq_ok.mp h
  obtain ⟨time, -, h⟩ := bind_eq_ok.mp h
  obtain ⟨width, -, h⟩ := bind_eq_ok.mp h
  obtain ⟨height, -, h⟩ := bind_eq_ok.mp h
  obtain ⟨c, -, h⟩ := bind_eq_ok.mp h
  cases h
  exact ⟨⟨⟨_, rfl⟩, ⟨_, _, rfl⟩, ⟨_, rfl⟩, ⟨_, _, _, rfl⟩, ⟨_, _, _, rfl⟩, ⟨_, _, _, rfl⟩⟩, rfl⟩

/-! ## What a morph gives -/

/-- The number that a morph gives for a uniform. -/
def given? (morph : Value) (key : String) : Option Binary64 :=
  match morph with
  | .map entries => (get? key entries).bind fun v => v.toNumber.toOption
  | _ => none

theorem numbers_spec {entries : Entries Value}
    (h : entries.mapM (fun (key, v) => do return (key, .float (← v.toNumber))) = (.ok changes : Except Fault _)) :
    keys changes = keys entries ∧ ∀ key, get? key changes = (given? (.map entries) key).map .float := by
  induction entries generalizing changes with
  | nil =>
    cases h
    exact ⟨rfl, fun _ => rfl⟩
  | cons p rest ih =>
    obtain ⟨k, v⟩ := p
    rw [List.mapM_cons] at h
    obtain ⟨change, hchange, h⟩ := bind_eq_ok.mp h
    obtain ⟨x, hx, hchange⟩ := bind_eq_ok.mp hchange
    obtain ⟨others, hothers, h⟩ := bind_eq_ok.mp h
    cases hchange
    cases h
    obtain ⟨hkeys, hget⟩ := ih hothers
    refine ⟨congrArg (k :: ·) hkeys, fun key => ?_⟩
    by_cases hkey : k = key
    · simp [given?, get?, hkey, hx, Except.toOption]
    · simpa [given?, get?, hkey] using hget key

theorem overrides_spec (hkeyed : morph.isKeyed = true) (h : overrides morph = .ok changes) :
    (keys changes).Nodup ∧ ∀ key, get? key changes = (given? morph key).map .float := by
  unfold overrides at h
  split at h
  case isTrue =>
    split at h
    · obtain ⟨hkeys, hget⟩ := numbers_spec h
      rw [hkeys]
      exact ⟨(Value.isKeyed_map.mp hkeyed).1, hget⟩
    · cases h
  case isFalse habsent =>
    cases h
    refine ⟨List.nodup_nil, fun key => ?_⟩
    -- a mapping that counts as absent has no entry
    cases morph with
    | map entries =>
      have hnil : entries = [] := by simpa [Value.isTrue] using habsent
      rw [hnil]
      rfl
    | _ => rfl

/-! ## What it changes -/

/-- Values with numbers in the place of some of them. -/
def Overridden (given : String → Option Binary64) (base values : Entries Value) : Prop :=
  ∀ key, get? key values = ((given key).map Value.float).or (get? key base)

variable {given : String → Option Binary64}

/-- What the morph gives is the value of a uniform, and what it does not give is as without it. -/
theorem exists_overridden (hkeyed : morph.isKeyed = true)
    (h : uniformValues theme complexity time resolution morph = .ok values) :
    ∃ base, uniformValues theme complexity time resolution .null = .ok base ∧ Overridden (given? morph) base values := by
  rw [uniformValues_split] at h
  obtain ⟨base, hbase, h⟩ := bind_eq_ok.mp h
  obtain ⟨changes, hchanges, h⟩ := bind_eq_ok.mp h
  cases h
  obtain ⟨hn, hget⟩ := overrides_spec hkeyed hchanges
  refine ⟨base, hbase, fun key => ?_⟩
  rw [get?_foldl_put hn, hget]

theorem Overridden.get?_eq_iff (h : Overridden given base values) :
    get? key values = get? key base ↔ ∀ x, given key = some x → get? key base = some (.float x) := by
  rw [h key]
  cases given key with
  | none => simp
  | some x => simp [eq_comm]

/-- A pair or a color stays as it is only where no number is given for it. -/
theorem Overridden.row_eq_iff (h : Overridden given base values) (hbase : Contract base) (hkey : key ∈ rowUniforms) :
    get? key values = get? key base ↔ given key = none := by
  obtain ⟨items, hitems⟩ := hbase.row hkey
  rw [h.get?_eq_iff, hitems]
  cases given key with
  | none => simp
  | some x => simp

theorem Overridden.get?_of_none (h : Overridden given base values) (hkey : given key = none) :
    get? key values = get? key base := by
  rw [h key, hkey]
  rfl

theorem Overridden.number (h : Overridden given base values) (hbase : Contract base) (hkey : key ∈ numberUniforms) :
    ∃ x, get? key values = some (.float x) := by
  rw [h key]
  cases given key with
  | none => exact hbase.number hkey
  | some x => exact ⟨x, rfl⟩

/-- The contract is kept unless a number takes the place of a pair or of a color. -/
theorem Overridden.contract_iff (h : Overridden given base values) (hbase : Contract base) :
    Contract values ↔ ∀ key ∈ rowUniforms, given key = none := by
  constructor
  · intro hvalues key hkey
    obtain ⟨items, hitems⟩ := hvalues.row hkey
    rw [h key] at hitems
    cases hgiven : given key with
    | none => rfl
    | some x =>
      rw [hgiven] at hitems
      cases hitems
  · intro hnone
    have hrow : ∀ key ∈ rowUniforms, get? key values = get? key base := fun key hkey => h.get?_of_none (hnone key hkey)
    simp only [rowUniforms, List.forall_mem_cons] at hrow
    obtain ⟨hresolution, hA, hB, hC, -⟩ := hrow
    exact ⟨h.number hbase (by decide), hresolution ▸ hbase.resolution, h.number hbase (by decide), hA ▸ hbase.colorA,
      hB ▸ hbase.colorB, hC ▸ hbase.colorC⟩

/-- The uniforms of the contract keep their values only where a number for one of them is the value it has. -/
theorem Overridden.contract_eq_iff (h : Overridden given base values) (hbase : Contract base) :
    (∀ key ∈ contractUniforms, get? key values = get? key base) ↔
      (∀ key ∈ rowUniforms, given key = none) ∧
      ∀ key ∈ numberUniforms, ∀ x, given key = some x → get? key base = some (.float x) := by
  simp only [mem_contractUniforms, or_imp, forall_and]
  refine and_congr (forall_congr' fun key => ?_) (forall_congr' fun key => ?_)
  · exact imp_congr_right fun hkey => h.row_eq_iff hbase hkey
  · exact imp_congr_right fun _ => h.get?_eq_iff

/-- Only the morph uniforms change where every other number is the time or the complexity that was there. -/
theorem Overridden.morph_only_iff (h : Overridden given base values) (hbase : Contract base)
    (hkeys : keys base = contractUniforms ++ keys morphAtRest) :
    (∀ key ∉ keys morphAtRest, get? key values = get? key base) ↔
      ∀ key ∉ keys morphAtRest, ∀ x, given key = some x →
        key ∈ numberUniforms ∧ get? key base = some (.float x) := by
  refine forall_congr' fun key => imp_congr_right fun hmorph => ?_
  rw [h.get?_eq_iff]
  refine forall_congr' fun x => imp_congr_right fun _ => ⟨fun hx => ⟨?_, hx⟩, And.right⟩
  have hmem : key ∈ keys base := List.mem_map_of_mem (f := Prod.fst) (mem_of_get? hx)
  rw [hkeys, List.mem_append, mem_contractUniforms] at hmem
  obtain (hrow | hnumber) | hrest := hmem
  · obtain ⟨items, hitems⟩ := hbase.row hrow
    exact nomatch hx.symm.trans hitems
  · exact hnumber
  · exact absurd hrest hmorph

/-- The values of a frame with a morph: those without one, which hold to the contract, with each number of the
    morph under its name. They hold to it unless the morph names a pair or a color, the uniforms of the contract
    keep their values unless it does so or gives another time or complexity, and only the morph uniforms change
    where it names nothing else. -/
theorem uniformValues_overridden (hkeyed : morph.isKeyed = true)
    (h : uniformValues theme complexity time resolution morph = .ok values) :
    ∃ base, uniformValues theme complexity time resolution .null = .ok base ∧ Contract base ∧
      (∀ key, get? key values = ((given? morph key).map Value.float).or (get? key base)) ∧
      (Contract values ↔ ∀ key ∈ rowUniforms, given? morph key = none) ∧
      ((∀ key ∈ contractUniforms, get? key values = get? key base) ↔
        (∀ key ∈ rowUniforms, given? morph key = none) ∧
        ∀ key ∈ numberUniforms, ∀ x, given? morph key = some x → get? key base = some (.float x)) ∧
      ((∀ key ∉ keys morphAtRest, get? key values = get? key base) ↔
        ∀ key ∉ keys morphAtRest, ∀ x, given? morph key = some x →
          key ∈ numberUniforms ∧ get? key base = some (.float x)) := by
  obtain ⟨base, hbase, hover⟩ := exists_overridden hkeyed h
  obtain ⟨hcontract, hkeys⟩ := uniformValues_contract hbase
  exact ⟨base, hbase, hcontract, hover, hover.contract_iff hcontract, hover.contract_eq_iff hcontract,
    hover.morph_only_iff hcontract hkeys⟩

/-- A morph that names a morph uniform, and the time beside it. -/
def timedMorph : Value := .map [("u_morphProgress", .int 1), ("u_time", .int 99)]

theorem timedMorph_overridden : timedMorph.isKeyed = true ∧ ∃ values base,
    uniformValues (.str "ALERT") (.str "PAISLEY") (.int 2) (.list [.int 3, .int 4]) timedMorph = .ok values ∧
    uniformValues (.str "ALERT") (.str "PAISLEY") (.int 2) (.list [.int 3, .int 4]) .null = .ok base ∧
    Contract values ∧ get? "u_colorA" values = get? "u_colorA" base ∧
    get? "u_time" values = some (.float (.ofRatio false 99 1)) := by
  have hkeyed : timedMorph.isKeyed = true := by decide
  have hrows : ∀ key ∈ rowUniforms, given? timedMorph key = none := by decide +kernel
  have htime : given? timedMorph "u_time" = some (.ofRatio false 99 1) := by decide +kernel
  obtain ⟨values, h⟩ := exists_ok (x := uniformValues (.str "ALERT") (.str "PAISLEY") (.int 2)
    (.list [.int 3, .int 4]) timedMorph) (by decide +kernel)
  obtain ⟨base, hbase, -, hget, hcontract, -⟩ := uniformValues_overridden hkeyed h
  refine ⟨hkeyed, values, base, h, hbase, hcontract.mpr hrows, ?_, ?_⟩
  · rw [hget, hrows _ (by decide)]
    rfl
  · rw [hget, htime]
    rfl

/-- A morph that names the resolution has the pair become a number. -/
theorem named_resolution_replaced : ∃ values base,
    uniformValues (.str "ALERT") (.str "PAISLEY") (.int 2) (.list [.int 3, .int 4])
      (.map [("u_resolution", .int 1)]) = .ok values ∧
    uniformValues (.str "ALERT") (.str "PAISLEY") (.int 2) (.list [.int 3, .int 4]) .null = .ok base ∧
    Contract base ∧ ¬Contract values ∧ get? "u_resolution" values ≠ get? "u_resolution" base := by
  have hkeyed : (Value.map [("u_resolution", .int 1)]).isKeyed = true := by decide
  have hgiven : given? (.map [("u_resolution", .int 1)]) "u_resolution" ≠ none := by decide +kernel
  obtain ⟨values, h⟩ := exists_ok (x := uniformValues (.str "ALERT") (.str "PAISLEY") (.int 2)
    (.list [.int 3, .int 4]) (.map [("u_resolution", .int 1)])) (by decide +kernel)
  obtain ⟨base, hbase, hover⟩ := exists_overridden hkeyed h
  obtain ⟨hcontract, -⟩ := uniformValues_contract hbase
  refine ⟨values, base, h, hbase, hcontract, ?_, ?_⟩
  · exact fun hvalues => hgiven ((hover.contract_iff hcontract).mp hvalues _ (by decide))
  · exact fun heq => hgiven ((hover.row_eq_iff hcontract (by decide)).mp heq)

end Vibe

end ShaderLoom
