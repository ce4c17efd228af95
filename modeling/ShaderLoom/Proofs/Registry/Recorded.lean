/-
  ShaderLoom.Proofs.Registry.Recorded — the generation log of a run.

  What a turn puts in the log is read off its request and the cache (`Turn.items`): a custom shader that
  was made, the presets a look-up added, nothing otherwise. The file gets just the lines of those items
  (`Turn.Recorded`), the reader returns a record of each (`run_logged`), and over a run the items of kept
  shaders are the cache in the order it was filled (`log_follows_cache`).
-/

import ShaderLoom.Proofs.Registry.Returned
import ShaderLoom.Proofs.Registry.Transparent

namespace ShaderLoom

/-! ## Items of a run -/

/-- What a turn makes: a custom shader, or the presets that it is the first to need. -/
def Turn.items (t : Turn) : List Item :=
  match t.request.call, t.reply with
  | .custom _, .one (.ok e) => [⟨e, false, t.request.time⟩]
  | .custom _, _ => []
  | _, _ => (t.after.cache.drop t.before.cache.length).map fun p => ⟨p.2, true, t.request.time⟩

namespace Registry

def items (r : Registry) (requests : List Request) (s : Session) : List Item :=
  (r.turns requests s).flatMap Turn.items

/-- The presets that requests look up and get, in the order they first do. -/
def firstFound (catalog : List (Int × ShaderConfig)) (requests : List Request) : List Int :=
  (requests.flatMap fun q => composable (Reference.lookedUp catalog q.call)).eraseDups

end Registry

/-- A turn in the log: the file gets the lines of the turn's items and no other file changes, as many
shaders are composed as there are items, and the cache gets the kept ones. A custom shader is one item
that is not kept and adds no id; what looks nothing up is none. -/
structure Turn.Recorded (t : Turn) (file : Path) : Prop where
  log : t.after.files.textAt file = t.before.files.textAt file ++ String.join (t.items.map Item.line)
  others : ∀ q ≠ file, t.after.files.read? q = t.before.files.read? q
  made : t.after.made = t.before.made + t.items.length
  kept : t.after.cache.map (·.2) = t.before.cache.map (·.2) ++ (t.items.filter (·.cached)).map (·.entry)
  custom : ∀ c, t.request.call = .custom c → Registry.cachedIds t.after = Registry.cachedIds t.before
  kind : match t.request.call, t.reply with
    | .custom _, .one (.ok e) => t.items = [⟨e, false, t.request.time⟩]
    | .custom _, _ | .config _, _ | .cachedIds, _ => t.items = []
    | _, _ => ∀ i ∈ t.items, i.cached = true

namespace Registry

variable {r : Registry} {catalog : List (Int × ShaderConfig)} {requests : List Request} {s : Session} {path : String}

/-! ## One turn -/

theorem items_of_lookups {t : Turn} {kept : List (Int × ShaderEntry)} (hcall : ∀ c, t.request.call ≠ .custom c)
    (hcache : t.after.cache = t.before.cache ++ kept) :
    t.items = kept.map fun p => ⟨p.2, true, t.request.time⟩ := by
  have hdrop : t.after.cache.drop t.before.cache.length = kept := by rw [hcache, List.drop_left]
  obtain ⟨⟨call, time⟩, before, reply, after⟩ := t
  cases call with
  | custom c => exact absurd rfl (hcall c)
  | _ => exact congrArg (List.map _) hdrop

/-- Nothing looked up, nothing kept. -/
theorem kept_eq_nil {time : String} {kept : List (Int × ShaderEntry)} {s' : Session} (h : Grows r time [] kept s s') :
    kept = [] := by
  have hlength := congrArg List.length h.ids
  rw [h.cache, List.foldl_nil, List.length_map, List.length_map, List.length_append] at hlength
  exact List.eq_nil_of_length_eq_zero (by omega)

theorem items_of_custom {t : Turn} {c : ShaderConfig} {e : ShaderEntry} (hcall : t.request.call = .custom c)
    (hreply : t.reply = .one (.ok e)) : t.items = [⟨e, false, t.request.time⟩] := by
  rw [Turn.items, hcall, hreply]

theorem items_of_refused {t : Turn} {c : ShaderConfig} {fault : Fault} (hcall : t.request.call = .custom c)
    (hreply : t.reply = .one (.error fault)) : t.items = [] := by
  rw [Turn.items, hcall, hreply]

/-- The log gets what a turn makes. -/
theorem Served.logged {t : Turn} (h : Served r catalog t) : r.Logged t.items t.before.files t.after.files := by
  cases h.gain with
  | lookups hcall hgrows _ => exact items_of_lookups hcall hgrows.cache ▸ hgrows.logged
  | custom hcall hreply _ _ _ hlogged => exact items_of_custom hcall hreply ▸ hlogged
  | refused hcall hreply _ _ hfiles =>
    rw [items_of_refused hcall hreply, hfiles]
    exact logged_nil _

theorem config_of_make {c : ShaderConfig} {e : ShaderEntry} (h : Shader.make c = .ok e.shader) : e.config = c := by
  obtain ⟨source, -, h⟩ := Outcome.bind_eq_ok.mp h
  exact (congrArg Shader.config (Except.ok.inj h)).symm

/-- What a turn makes is a preset of the catalog or the custom shader asked for. -/
theorem Served.configs {t : Turn} (h : Served r catalog t) (hholds : Holds r catalog) {i : Item} (hi : i ∈ t.items) :
    (∃ p ∈ catalog, p.2 = i.entry.config) ∨ t.request.call = .custom i.entry.config := by
  cases h.gain with
  | lookups hcall hgrows _ =>
    rw [items_of_lookups hcall hgrows.cache] at hi
    obtain ⟨p, hp, rfl⟩ := List.mem_map.mp hi
    obtain ⟨c, hc, hmake⟩ := hgrows.composed p hp
    exact Or.inl ⟨_, hholds.perm.mem_iff.mp (mem_of_lookup hc), (config_of_make hmake).symm⟩
  | custom hcall hreply hmake _ _ _ =>
    rw [items_of_custom hcall hreply] at hi
    rw [List.mem_singleton.mp hi, hcall, ← config_of_make hmake]
    exact Or.inr rfl
  | refused hcall hreply _ _ _ =>
    rw [items_of_refused hcall hreply] at hi
    cases hi

theorem Served.recorded {t : Turn} (h : Served r catalog t) (hpath : r.logPath = some path) :
    t.Recorded (logFile path) := by
  have hlogged := (logged_of_some hpath).mp h.logged
  cases h.gain with
  | @lookups kept hcall hgrows hmem =>
    have hitems := items_of_lookups hcall hgrows.cache
    have hcached : ∀ i ∈ t.items, i.cached = true := by
      rw [hitems]
      rintro i hi
      obtain ⟨p, -, rfl⟩ := List.mem_map.mp hi
      rfl
    have hkept : (t.items.filter (·.cached)).map (·.entry) = kept.map (·.2) := by
      rw [List.filter_eq_self.mpr hcached, hitems, List.map_map]
      rfl
    exact {
      log := hlogged.text
      others := hlogged.others
      made := by rw [hgrows.made, hitems, List.length_map]
      kept := by rw [hgrows.cache, List.map_append, hkept]
      custom := fun c hc => absurd hc (hcall c)
      kind := by
        obtain ⟨⟨call, time⟩, before, reply, after⟩ := t
        cases call with
        | custom c => exact absurd rfl (hcall c)
        | config | cachedIds => exact hitems.trans (kept_eq_nil hgrows ▸ rfl)
        | byId | byName | all => exact hcached }
  | custom hcall hreply hmake hcache hmade =>
    have hitems := items_of_custom hcall hreply
    exact {
      log := hlogged.text
      others := hlogged.others
      made := by rw [hmade, hitems]; rfl
      kept := by rw [hcache, hitems]; exact (List.append_nil _).symm
      custom := fun _ _ => by rw [cachedIds, hcache]; rfl
      kind := by rw [hcall, hreply]; exact hitems }
  | refused hcall hreply hcache hmade hfiles =>
    have hitems := items_of_refused hcall hreply
    exact {
      log := hlogged.text
      others := hlogged.others
      made := by rw [hmade, hitems]; rfl
      kept := by rw [hcache, hitems]; exact (List.append_nil _).symm
      custom := fun _ _ => by rw [cachedIds, hcache]; rfl
      kind := by rw [hcall, hreply]; exact hitems }

/-- The ids of the cache, with those that the request found. -/
theorem Served.ids {t : Turn} (h : Served r catalog t) :
    t.after.cache.map (·.1) =
      (composable (Reference.lookedUp catalog t.request.call)).foldl withId (t.before.cache.map (·.1)) := by
  cases h.gain with
  | lookups _ hgrows _ => exact hgrows.ids
  | custom hcall _ _ hcache _ _ =>
    rw [hcall, hcache]
    rfl
  | refused hcall _ hcache _ _ =>
    rw [hcall, hcache]
    rfl

/-! ## Whole runs -/

theorem items_cons (q : Request) (rest : List Request) (s : Session) :
    r.items (q :: rest) s = (r.turn q s).items ++ r.items rest (r.serve q s).2 := rfl

/-- The turns of a run in the log, put together. -/
structure RunRecorded (r : Registry) (file : Path) (requests : List Request) (s : Session) : Prop where
  log : (r.after requests s).files.textAt file =
    s.files.textAt file ++ String.join ((r.items requests s).map Item.line)
  others : ∀ q ≠ file, (r.after requests s).files.read? q = s.files.read? q
  made : (r.after requests s).made = s.made + (r.items requests s).length
  kept : (r.after requests s).cache.map (·.2) =
    s.cache.map (·.2) ++ ((r.items requests s).filter (·.cached)).map (·.entry)

theorem run_recorded {file : Path} (h : ∀ t ∈ r.turns requests s, t.Recorded file) : RunRecorded r file requests s := by
  induction requests generalizing s with
  | nil => exact ⟨by simp [after, items, turns], fun q _ => rfl, rfl, by simp [after, items, turns]⟩
  | cons q rest ih =>
    obtain ⟨hturn, hrest⟩ := List.forall_mem_cons.mp h
    obtain ⟨hlog, hothers, hmade, hkept⟩ := ih hrest
    exact {
      log := by
        rw [items_cons, List.map_append, String.join_append, ← String.append_assoc]
        exact hlog.trans (congrArg (· ++ _) hturn.log)
      others := fun p hp => (hothers p hp).trans (hturn.others p hp)
      made := by
        rw [items_cons, List.length_append, ← Nat.add_assoc]
        exact hmade.trans (congrArg (· + _) hturn.made)
      kept := by
        rw [items_cons, List.filter_append, List.map_append, ← List.append_assoc]
        exact hkept.trans (congrArg (· ++ _) hturn.kept) }

theorem run_logged (h : ∀ t ∈ r.turns requests s, Served r catalog t) :
    r.Logged (r.items requests s) s.files (r.after requests s).files := by
  induction requests generalizing s with
  | nil => exact logged_nil s.files
  | cons q rest ih =>
    obtain ⟨hturn, hrest⟩ := List.forall_mem_cons.mp h
    exact hturn.logged.append (ih hrest)

theorem run_configs (hholds : Holds r catalog) (h : ∀ t ∈ r.turns requests s, Served r catalog t) {i : Item}
    (hi : i ∈ r.items requests s) :
    (∃ p ∈ catalog, p.2 = i.entry.config) ∨ ∃ q ∈ requests, q.call = .custom i.entry.config := by
  induction requests generalizing s with
  | nil => cases hi
  | cons q rest ih =>
    obtain ⟨hturn, hrest⟩ := List.forall_mem_cons.mp h
    rw [items_cons] at hi
    rcases List.mem_append.mp hi with hi | hi
    · exact (hturn.configs hholds hi).imp_right fun hcall => ⟨q, List.mem_cons_self, hcall⟩
    · exact (ih hrest hi).imp_right fun ⟨q', hq', hcall⟩ => ⟨q', List.mem_cons_of_mem _ hq', hcall⟩

theorem isKeyed_of_isKey {v : Value} (h : v.isKey = true) : v.isKeyed = true := by
  cases v with
  | list | map => cases h
  | _ => rfl

theorem isKeyed_of_wholeNumber {v : Value} {n : Int} (h : v.wholeNumber? = some n) : v.isKeyed = true := by
  cases v with
  | list | map => cases h
  | _ => rfl

/-- The id of a preset is a number and its name can be a key. -/
theorem run_keyed (hholds : Holds r catalog) (h : ∀ t ∈ r.turns requests s, Served r catalog t)
    (hcustoms : ∀ q ∈ requests, ∀ c, q.call = .custom c → c.id.isKeyed = true ∧ c.name.isKeyed = true) :
    ∀ i ∈ r.items requests s, i.Keyed := by
  intro i hi
  rcases run_configs hholds h hi with ⟨p, hp, hconfig⟩ | ⟨q, hq, hcall⟩
  · have hid := Value.wholeNumber?_of_equals (hholds.checked.underId p hp)
    exact ⟨hconfig ▸ isKeyed_of_wholeNumber hid, hconfig ▸ isKeyed_of_isKey (hholds.checked.keyed p hp)⟩
  · obtain ⟨hid, hname⟩ := hcustoms q hq _ hcall
    exact ⟨hid, hname⟩

theorem run_ids (h : ∀ t ∈ r.turns requests s, Served r catalog t) :
    (r.after requests s).cache.map (·.1) =
      (requests.flatMap fun q => composable (Reference.lookedUp catalog q.call)).foldl withId (s.cache.map (·.1)) := by
  induction requests generalizing s with
  | nil => rfl
  | cons q rest ih =>
    obtain ⟨hturn, hrest⟩ := List.forall_mem_cons.mp h
    rw [List.flatMap_cons, List.foldl_append]
    exact (ih hrest).trans (congrArg (List.foldl withId · _) hturn.ids)

theorem run_sound (h : ∀ t ∈ r.turns requests s, Served r catalog t) (hs : Sound r s) : Sound r (r.after requests s) := by
  induction requests generalizing s with
  | nil => exact hs
  | cons q rest ih =>
    obtain ⟨hturn, hrest⟩ := List.forall_mem_cons.mp h
    exact ih hrest (hturn.gain.sound hs)

/-- Ids put behind others are those that are not among them, each once. -/
theorem foldl_withId (ids found : List Int) : found.foldl withId ids = ids ++ (found.removeAll ids).eraseDups := by
  induction found generalizing ids with
  | nil => simp [List.removeAll]
  | cons id rest ih =>
    rw [List.foldl_cons, ih]
    by_cases hid : id ∈ ids
    · have hgone : (id :: rest).removeAll ids = rest.removeAll ids := by simp [List.removeAll, hid]
      rw [withId_of_mem hid, hgone]
    · have hstays : (id :: rest).removeAll ids = id :: rest.removeAll ids := by simp [List.removeAll, hid]
      have hrest : rest.removeAll (ids ++ [id]) = (rest.removeAll ids).filter fun b => !b == id := by
        simp only [List.removeAll, List.filter_filter]
        refine List.filter_congr fun b _ => ?_
        simp [Bool.and_comm]
        rfl
      rw [withId_of_not_mem hid, hstays, hrest, List.eraseDups_cons, List.append_assoc]
      rfl

theorem ids_of_run {files : Files} (h : ∀ t ∈ r.turns requests { files }, Served r catalog t) :
    (r.after requests { files }).cache.map (·.1) = firstFound catalog requests := by
  rw [run_ids h]
  show List.foldl withId [] _ = _
  rw [foldl_withId, List.removeAll_nil]
  rfl

theorem cachedIds_ascending (hs : Sound r s) : (cachedIds s).Pairwise (· < ·) := by
  have hle : (cachedIds s).Pairwise fun a b => decide (a ≤ b) = true :=
    List.pairwise_mergeSort (fun a b c hab hbc => by simp at *; omega) (fun a b => by simp; omega) _
  have hn : (cachedIds s).Nodup := (cachedIds_perm s).symm.nodup hs.once
  refine (hle.and hn).imp fun ⟨hab, hne⟩ => ?_
  have := of_decide_eq_true hab
  omega

/-- The id of a kept shader is the id it is kept under. -/
theorem wholeNumber_of_kept (h : Holds r catalog) (hs : Sound r s) {p : Int × ShaderEntry} (hp : p ∈ s.cache) :
    p.2.config.id.wholeNumber? = some p.1 := by
  obtain ⟨c, hc, hmake⟩ := hs.composed p hp
  rw [config_of_make hmake]
  exact Value.wholeNumber?_of_equals (h.checked.underId _ (h.perm.mem_iff.mp (mem_of_lookup hc)))

theorem cache_subset {file : Path} {t : Turn} (h : ∀ t ∈ r.turns requests s, t.Recorded file)
    (ht : t ∈ r.turns requests s) : ∀ e ∈ t.after.cache.map (·.2), e ∈ (r.after requests s).cache.map (·.2) := by
  induction requests generalizing s with
  | nil => cases ht
  | cons q rest ih =>
    obtain ⟨-, hrest⟩ := List.forall_mem_cons.mp h
    rcases List.mem_cons.mp ht with rfl | ht
    · intro e he
      show e ∈ (r.after rest (r.serve q s).2).cache.map (·.2)
      rw [(run_recorded hrest).kept]
      exact List.mem_append_left _ he
    · exact ih hrest ht

/-- The log of a run of a registry, and the cache that comes with it. -/
structure Recorded (r : Registry) (catalog : List (Int × ShaderConfig)) (path : String) (requests : List Request)
    (files : Files) : Prop where
  turns : ∀ t ∈ r.turns requests { files }, t.Recorded (Path.ofText path)
  run : RunRecorded r (Path.ofText path) requests { files }
  records : ∀ i ∈ r.items requests { files }, i.Tells (· = ·) i.record
  /-- What the reader returns: the records that the file held before, and one for each item. -/
  readBack : ∀ earlier : List Value, (∀ v ∈ earlier, v.isKeyed = true ∧ v.isPrintable = true) →
    files.textAt (Path.ofText path) = String.join (earlier.map Journal.recordLine) →
    (∀ q ∈ requests, ∀ c, q.call = .custom c → c.id.isKeyed = true ∧ c.name.isKeyed = true) →
    r.items requests { files } ≠ [] ∨ Files.Present path files →
    ∃ before found, Journal.read path (r.after requests { files }).files = ⟨before ++ found, none⟩ ∧
      List.Forall₂ Value.Reordered earlier before ∧ List.Forall₂ Item.Returned (r.items requests { files }) found
  /-- The ids in the records of kept shaders. -/
  ids : ((r.items requests { files }).filter (·.cached)).map (·.entry.config.id.wholeNumber?) =
    (firstFound catalog requests).map some
  distinct : (firstFound catalog requests).Nodup
  cached : (cachedIds (r.after requests { files })).Perm (firstFound catalog requests)
  ascending : (cachedIds (r.after requests { files })).Pairwise (· < ·)
  known : ∀ id ∈ cachedIds (r.after requests { files }), id ∈ catalog.map (·.1)
  /-- Whatever was handed out has its record. -/
  returned : ∀ t ∈ r.turns requests { files }, ∀ e ∈ t.reply.entries, ∃ i ∈ r.items requests { files },
    i.entry = e ∧ (i.cached = false ↔ ∃ c, t.request.call = .custom c)

theorem mem_items_of_kept {file : Path} {files : Files} (h : RunRecorded r file requests { files }) {e : ShaderEntry}
    (he : e ∈ (r.after requests { files }).cache.map (·.2)) :
    ∃ i ∈ r.items requests { files }, i.entry = e ∧ i.cached = true := by
  rw [h.kept] at he
  obtain ⟨i, hi, rfl⟩ := List.mem_map.mp he
  obtain ⟨hi, hcached⟩ := List.mem_filter.mp hi
  exact ⟨i, hi, rfl, hcached⟩

/-- The records of kept shaders, in order, are of the ids in the cache. -/
theorem ids_recorded {file : Path} {files : Files} (hholds : Holds r catalog)
    (hsound : Sound r (r.after requests { files })) (hrun : RunRecorded r file requests { files }) :
    ((r.items requests { files }).filter (·.cached)).map (·.entry.config.id.wholeNumber?) =
      (r.after requests { files }).cache.map fun p => some p.1 := by
  have hkept : (r.after requests { files }).cache.map (·.2) =
      ((r.items requests { files }).filter (·.cached)).map (·.entry) := hrun.kept
  calc ((r.items requests { files }).filter (·.cached)).map (·.entry.config.id.wholeNumber?)
    _ = ((r.after requests { files }).cache.map (·.2)).map (·.config.id.wholeNumber?) := by
      rw [hkept, List.map_map]
      rfl
    _ = (r.after requests { files }).cache.map fun p => some p.1 := by
      rw [List.map_map]
      exact List.map_congr_left fun p hp => wholeNumber_of_kept hholds hsound hp

/-- What a turn hands out is kept, and so recorded, or it is the turn's own item. -/
theorem returned_recorded {file : Path} {files : Files} {t : Turn} (hserved : Served r catalog t)
    (hturns : ∀ t ∈ r.turns requests { files }, t.Recorded file) (ht : t ∈ r.turns requests { files })
    {e : ShaderEntry} (he : e ∈ t.reply.entries) :
    ∃ i ∈ r.items requests { files }, i.entry = e ∧ (i.cached = false ↔ ∃ c, t.request.call = .custom c) := by
  cases hserved.gain with
  | lookups hcall _ hmem =>
    obtain ⟨i, hi, hentry, hcached⟩ :=
      mem_items_of_kept (run_recorded hturns) (cache_subset hturns ht e (hmem e he))
    exact ⟨i, hi, hentry, by simp [hcached], fun ⟨c, hc⟩ => absurd hc (hcall c)⟩
  | @custom c made hcall hreply _ _ _ _ =>
    have hitems := items_of_custom hcall hreply
    have hmem : ⟨made, false, t.request.time⟩ ∈ r.items requests { files } :=
      List.mem_flatMap.mpr ⟨t, ht, hitems ▸ List.mem_singleton_self _⟩
    rw [hreply] at he
    exact ⟨_, hmem, (List.mem_singleton.mp he).symm, fun _ => ⟨c, hcall⟩, fun _ => rfl⟩
  | refused _ hreply _ _ _ =>
    rw [hreply] at he
    cases he

/-- The log and the cache of a run keep in step. -/
theorem log_follows_cache {pairs : List (Int × ShaderConfig)} {strict : Bool} {files : Files}
    (h : ofCatalog pairs strict (some path) = .ok r) (hpath : path ≠ "") (hlog : r.LogsAll requests { files }) :
    Recorded r (filed pairs) path requests files := by
  have hholds := holds_of_catalog h
  have hlogPath : r.logPath = some path := by
    obtain ⟨-, rfl⟩ := ofCatalog_ok h
    simp [Option.filter, hpath]
  have hor : Journal.pathOr path = path := if_neg hpath
  have hfile : logFile path = Path.ofText path := congrArg Path.ofText hor
  have hserved := turns_served hholds (sound_fresh r files) hlog
  have hturns : ∀ t ∈ r.turns requests { files }, t.Recorded (Path.ofText path) :=
    fun t ht => hfile ▸ (hserved t ht).recorded hlogPath
  have hrun := run_recorded hturns
  have hsound := run_sound hserved (sound_fresh r files)
  have hids := ids_of_run hserved
  exact {
    turns := hturns
    run := hrun
    records := fun i _ => i.tells
    readBack := by
      intro earlier hearlier htext hcustoms hany
      have hlengthened := (logged_of_some hlogPath).mp (run_logged hserved)
      exact hlengthened.readBack (run_keyed hholds hserved hcustoms) hearlier (hfile ▸ htext)
        (by rwa [hor])
    ids := by
      rw [ids_recorded hholds hsound hrun, ← hids, List.map_map]
      rfl
    distinct := hids ▸ hsound.once
    cached := hids ▸ cachedIds_perm _
    ascending := cachedIds_ascending hsound
    known := by
      intro id hid
      obtain ⟨p, hp, rfl⟩ := List.mem_map.mp ((cachedIds_perm _).mem_iff.mp hid)
      obtain ⟨c, hc, -⟩ := hsound.composed p hp
      exact List.mem_map.mpr ⟨_, hholds.perm.mem_iff.mp (mem_of_lookup hc), rfl⟩
    returned := fun t ht _ he => returned_recorded (hserved t ht) hturns ht he }

/-- The small run with its log, in a tree that has no file yet: all that the reader then returns is of the
run. -/
theorem smallRun_recorded :
    ∃ r, ofCatalog smallCatalog true (some "small.jsonl") = .ok r ∧ "small.jsonl" ≠ "" ∧ r.LogsAll smallRun {} ∧
      Recorded r (filed smallCatalog) "small.jsonl" smallRun {} ∧
      ∃ found, Journal.read "small.jsonl" (r.after smallRun {}).files = ⟨found, none⟩ ∧
        List.Forall₂ Item.Returned (r.items smallRun {}) found := by
  obtain ⟨r, h⟩ := smallCatalog_ok
  have hlog := smallRun_logged h
  have hpath : "small.jsonl" ≠ "" := by decide
  have hrecorded := log_follows_cache h hpath hlog
  have hseven : (7 : Int) ∈ firstFound (filed smallCatalog) smallRun :=
    List.mem_eraseDups.mpr (List.mem_flatMap.mpr ⟨_, List.mem_cons_self, by decide +kernel⟩)
  have hsome : r.items smallRun {} ≠ [] := by
    intro hnone
    have hids := hrecorded.ids
    rw [hnone] at hids
    rw [List.map_eq_nil_iff.mp hids.symm] at hseven
    cases hseven
  have hcustoms : ∀ q ∈ smallRun, ∀ c, q.call = .custom c → c.id.isKeyed = true ∧ c.name.isKeyed = true :=
    smallRun_customs ⟨rfl, rfl⟩
  obtain ⟨before, found, hread, hbefore, hfound⟩ :=
    hrecorded.readBack [] (fun _ h => absurd h List.not_mem_nil) rfl hcustoms (Or.inl hsome)
  cases hbefore
  exact ⟨r, h, hpath, hlog, hrecorded, found, hread, hfound⟩

end Registry

end ShaderLoom
