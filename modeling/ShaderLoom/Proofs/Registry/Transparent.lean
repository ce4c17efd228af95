/-
  ShaderLoom.Proofs.Registry.Transparent — the cache does not show.

  A request leaves a sound session sound (`Gain.sound`), so on every session of a run the request that
  comes next is replied to as the reference replies (`turns_served`). What was asked before, custom
  shaders under the ids and names of presets included, changes nothing (`replies_transparent`).
-/

import ShaderLoom.Proofs.Program.Length
import ShaderLoom.Proofs.Registry.Served
import ShaderLoom.Proofs.Registry.Writable

namespace ShaderLoom.Registry

variable {r : Registry} {catalog : List (Int × ShaderConfig)} {q : Request} {requests : List Request}
  {reply : Reply ShaderEntry} {s s' : Session}

theorem Gain.sound (h : Gain r catalog q reply s s') (hs : Sound r s) : Sound r s' := by
  cases h with
  | lookups _ hgrows _ => exact hgrows.sound hs
  | custom _ _ _ hcache _ _ => exact ⟨hcache ▸ hs.once, hcache ▸ hs.composed⟩
  | refused _ _ hcache _ _ => exact ⟨hcache ▸ hs.once, hcache ▸ hs.composed⟩

theorem sound_fresh (r : Registry) (files : Files) : Sound r { files } := ⟨List.nodup_nil, fun _ h => nomatch h⟩

theorem turns_served (h : Holds r catalog) (hs : Sound r s) (hlog : r.LogsAll requests s) :
    ∀ t ∈ r.turns requests s, Served r catalog t := by
  induction requests generalizing s with
  | nil => exact fun t h => nomatch h
  | cons q rest ih =>
    obtain ⟨hwrote, hrest⟩ := List.forall_mem_cons.mp hlog
    have hserved := serve_spec h q hs hwrote
    exact List.forall_mem_cons.mpr ⟨hserved, ih (hserved.gain.sound hs) hrest⟩

theorem turns_requests (r : Registry) (requests : List Request) (s : Session) :
    (r.turns requests s).map (·.request) = requests := by
  induction requests generalizing s with
  | nil => rfl
  | cons q rest ih => exact congrArg (q :: ·) (ih _)

/-- The presets of a catalog as they all come: each once and under its id, by strictly ascending id,
no two of one name. -/
structure Ordered (catalog : List (Int × ShaderConfig)) : Prop where
  perm : (ascending catalog).Perm catalog
  ascends : ((ascending catalog).map (·.1)).Pairwise (· < ·)
  underId : ∀ p ∈ catalog, (Value.int p.1).equals p.2.id = true
  named : ∀ name, ∀ p ∈ catalog, ∀ q ∈ catalog, p.2.name.equals name = true → q.2.name.equals name = true → p = q

/-- Every request of a run is replied to as by a registry without a cache. -/
theorem replies_transparent {pairs : List (Int × ShaderConfig)} {strict : Bool} {logPath : Option String}
    {files : Files} (h : ofCatalog pairs strict logPath = .ok r) (hlog : r.LogsAll requests { files }) :
    (r.turns requests { files }).map (·.request) = requests ∧
      (∀ t ∈ r.turns requests { files }, ∀ reply,
        Reference.reply? (filed pairs) strict t.request.call = some reply →
          t.reply.map ShaderEntry.shader = reply) ∧
      Ordered (filed pairs) := by
  have hholds := holds_of_catalog h
  have hstrict : r.strict = strict := by
    obtain ⟨-, rfl⟩ := ofCatalog_ok h
    rfl
  refine ⟨turns_requests r requests _, fun t ht => ?_, ?_⟩
  · exact hstrict ▸ (turns_served hholds (sound_fresh r files) hlog t ht).reply
  · exact {
      perm := ascending_perm _
      ascends := ascending_keys hholds.once
      underId := hholds.checked.underId
      named := fun name p hp q hq => eq_of_names hholds.checked hp hq }

/-! ## A small catalog -/

def smallConfig (id : Int) (name effect : String) : ShaderConfig where
  id := .int id
  name := .str name
  description := .str ""
  fallbackColor := .str "#000000"
  noise := .str "hash"
  time := {}
  palette := .empty
  effect := .str effect

/-- What it adds to the fixed texts of a source is little. -/
theorem smallConfig_fits {id : Int} {name effect : String} (hid : id.natAbs ≤ 9) (hname : name.length ≤ 9) :
    Fits (smallConfig id name effect) := by
  intro source h
  have hlimit : 10 ^ 5 < 10 ^ mostDigits := Nat.pow_lt_pow_right (by decide) (by decide)
  refine ⟨Value.isPrintable_int_iff.mpr (by omega), ?_⟩
  obtain ⟨time, scale, vignette, htime, hscale, hvignette, hlength⟩ := Program.length_compose_le h
  obtain ⟨strength, smoothness, base, boost, hstrength, hsmoothness, hbase, hboost, hvignette⟩ :=
    Program.length_vignette_le (v := .standard) hvignette
  have hshort : ∀ {v : Value} {decimals : Option Int} {s : String}, Literal.ofValue v decimals = .ok s →
      (Literal.ofValue v decimals).toOption.all (·.length ≤ 9) = true → s.length ≤ 9 := by
    intro v decimals s hs hall
    rw [hs] at hall
    exact of_decide_eq_true hall
  have htime : time.length ≤ 99 := by
    have hall : (Program.timeStatement {}).toOption.all (·.length ≤ 99) = true := by decide +kernel
    rw [show Program.timeStatement {} = .ok time from htime] at hall
    exact of_decide_eq_true hall
  have hstrength := hshort hstrength (by decide +kernel)
  have hsmoothness := hshort hsmoothness (by decide +kernel)
  have hbase := hshort hbase (by decide +kernel)
  have hboost := hshort hboost (by decide +kernel)
  cases hscale
  have hnumbers : source.length ≤ name.length + 0 + time.length + 0 + vignette.length + 7 * 10000 := hlength
  omega

/-- Three presets out of order, the second of an effect that there is not. -/
def smallCatalog : List (Int × ShaderConfig) := [
  (7, smallConfig 7 "SEVEN" "stippled"),
  (3, smallConfig 3 "THREE" "no_effect"),
  (0, smallConfig 0 "ZERO" "metaballs")]

/-- A preset asked for in several ways and again after a custom shader under its id and name. -/
def smallRun : List Request := [
  ⟨.byName (.str "SEVEN"), "09:00"⟩,
  ⟨.custom (smallConfig 7 "SEVEN" "crystalline"), "09:01"⟩,
  ⟨.byId (.float (.ofRatio false 7 1)), "09:02"⟩,
  ⟨.byId (.int 3), "09:03"⟩,
  ⟨.all, "09:04"⟩,
  ⟨.cachedIds, "09:05"⟩,
  ⟨.byName (.str "NONE"), "09:06"⟩]

theorem smallCatalog_ok : ∃ r, ofCatalog smallCatalog true (some "small.jsonl") = .ok r := by
  have hok : (ofCatalog smallCatalog true (some "small.jsonl")).toBool = true := by decide +kernel
  cases h : ofCatalog smallCatalog true (some "small.jsonl") with
  | ok r => exact ⟨r, rfl⟩
  | error fault =>
    rw [h] at hok
    cases hok

theorem smallLog_ready (h : ofCatalog smallCatalog true (some "small.jsonl") = .ok r) : Ready r {} := by
  obtain ⟨-, rfl⟩ := ofCatalog_ok h
  rintro path ⟨⟩
  have happend : Files.append "small.jsonl" "" .empty = (.ok (), ⟨[(["small.jsonl"], "")], []⟩) := by rfl
  exact (Files.writable_of_append happend).1

theorem smallCatalog_fits {strict : Bool} {logPath : Option String} (h : ofCatalog smallCatalog strict logPath = .ok r) :
    ∀ p ∈ r.presets, Fits p.2 := by
  intro p hp
  have hmem : p ∈ smallCatalog := (holds_of_catalog h).perm.mem_iff.mp hp
  simp only [smallCatalog, List.mem_cons, List.not_mem_nil, or_false] at hmem
  rcases hmem with rfl | rfl | rfl <;> exact smallConfig_fits (by decide) (by decide)

/-- The run has one custom shader. -/
theorem smallRun_customs {good : ShaderConfig → Prop} (h : good (smallConfig 7 "SEVEN" "crystalline")) :
    ∀ q ∈ smallRun, ∀ c, q.call = .custom c → good c := by
  simp only [smallRun, List.forall_mem_cons, List.not_mem_nil, false_implies, implies_true, and_true]
  refine ⟨nofun, ?_, nofun, nofun, nofun, nofun, nofun⟩
  rintro c ⟨⟩
  exact h

theorem smallRun_logged (h : ofCatalog smallCatalog true (some "small.jsonl") = .ok r) : r.LogsAll smallRun {} :=
  logsAll_of_ready (smallLog_ready h) (smallCatalog_fits h) (smallRun_customs (smallConfig_fits (by decide) (by decide)))

theorem smallRun_transparent :
    ∃ r, ofCatalog smallCatalog true (some "small.jsonl") = .ok r ∧ r.LogsAll smallRun {} ∧
      (r.turns smallRun {}).map (·.request) = smallRun ∧
      (∀ t ∈ r.turns smallRun {}, ∀ reply,
        Reference.reply? (filed smallCatalog) true t.request.call = some reply →
          t.reply.map ShaderEntry.shader = reply) ∧
      Ordered (filed smallCatalog) := by
  obtain ⟨r, h⟩ := smallCatalog_ok
  exact ⟨r, h, smallRun_logged h, replies_transparent h (smallRun_logged h)⟩

end ShaderLoom.Registry
