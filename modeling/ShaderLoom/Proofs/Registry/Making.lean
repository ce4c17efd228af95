/-
  ShaderLoom.Proofs.Registry.Making — how a session grows.

  What a registry can do is said once for each of its steps: making a shader ends in one of three ways
  (`Making`): it cannot be composed and nothing happens, it is made and logged, or the log cannot be
  written; an id is found in the cache, is none, or has its shader made and kept (`Fetching`); a custom
  shader is made, refused, or made with a warning, unless the verdict on it cannot be told
  (`Customizing`).

  Looking up presets one after another makes those that the cache does not have, up to the first that
  cannot be composed. What the session gains by that is told by `Grows`: the entries kept, the lines
  logged for them and the ids new to the cache. The cache holds nothing but what the catalog's presets
  are composed to (`Sound`).
-/

import ShaderLoom.Proofs.Log.Generation
import ShaderLoom.Proofs.Registry.Call
import ShaderLoom.Proofs.Schema.Told

namespace ShaderLoom

open Outcome

/-! ## Logged shaders -/

/-- A shader made, whether to be kept, and when. -/
structure Item where
  entry : ShaderEntry
  cached : Bool
  time : String

namespace Item

def record (i : Item) : Entries Value :=
  Journal.stamped (Registry.record i.entry.config i.entry.source i.cached) i.time

/-- The line that the log gets. -/
def line (i : Item) : String := Json.line (.map i.record) ++ "\n"

end Item

namespace Registry

variable {r : Registry} {time : String} {c : ShaderConfig} {cached : Bool} {s s' s'' : Session} {fault : Fault}

/-- Where the log is. -/
def logFile (path : String) : Path := Path.ofText (Journal.pathOr path)

/-- A file has got a line for every item, each of which can be written out, and nothing else; no other
file has changed. -/
structure Lengthened (path : String) (items : List Item) (files files' : Files) : Prop where
  text : files'.textAt (logFile path) = files.textAt (logFile path) ++ String.join (items.map Item.line)
  others : ∀ q ≠ logFile path, files'.read? q = files.read? q
  printable : ∀ i ∈ items, (Value.map i.record).isPrintable = true
  present : items ≠ [] ∨ Files.Present (Journal.pathOr path) files → Files.Present (Journal.pathOr path) files'

/-- The log, if there is one, has got a line for every item, and no other file has changed. -/
def Logged (r : Registry) (items : List Item) (files files' : Files) : Prop :=
  match r.logPath with
  | none => files' = files
  | some path => Lengthened path items files files'

variable {items items' : List Item} {files files' files'' : Files} {path : String}

theorem logged_of_none (h : r.logPath = none) : r.Logged items files files' ↔ files' = files := by
  rw [Logged, h]

theorem logged_of_some (h : r.logPath = some path) : r.Logged items files files' ↔ Lengthened path items files files' := by
  rw [Logged, h]

theorem lengthened_nil (path : String) (files : Files) : Lengthened path [] files files where
  text := by simp
  others := fun _ _ => rfl
  printable := fun _ h => nomatch h
  present := fun h => h.resolve_left fun h => h rfl

theorem Lengthened.append (h : Lengthened path items files files') (h' : Lengthened path items' files' files'') :
    Lengthened path (items ++ items') files files'' where
  text := by rw [h'.text, h.text, List.map_append, String.join_append, String.append_assoc]
  others := fun q hq => (h'.others q hq).trans (h.others q hq)
  printable := fun i hi => (List.mem_append.mp hi).elim (h.printable i) (h'.printable i)
  present := by
    intro hany
    by_cases hitems : items = []
    · subst hitems
      exact h'.present (hany.imp_right fun hpresent => h.present (Or.inr hpresent))
    · exact h'.present (Or.inr (h.present (Or.inl hitems)))

theorem logged_nil (files : Files) : r.Logged [] files files := by
  cases hpath : r.logPath with
  | none => exact (logged_of_none hpath).mpr rfl
  | some path => exact (logged_of_some hpath).mpr (lengthened_nil path files)

theorem Logged.append (h : r.Logged items files files') (h' : r.Logged items' files' files'') :
    r.Logged (items ++ items') files files'' := by
  cases hpath : r.logPath with
  | none =>
    rw [logged_of_none hpath] at h h' ⊢
    exact h'.trans h
  | some path =>
    rw [logged_of_some hpath] at h h' ⊢
    exact h.append h'

/-! ## Writing the log -/

/-- A record for the log, if there is one. -/
def write (r : Registry) (record : Entries Value) (files : Files) : Except Fault Unit × Files :=
  match r.logPath with
  | none => (.ok (), files)
  | some path => Journal.writeRecord (Journal.pathOr path) (.map record) files

theorem write_fault {record : Entries Value} (h : (r.write record files).1 = .error fault) :
    r.logPath ≠ none ∧ fault.isOfFiles = true := by
  unfold write at h
  cases hpath : r.logPath with
  | none =>
    rw [hpath] at h
    cases h
  | some path =>
    rw [hpath] at h
    exact ⟨Option.some_ne_none path, Journal.writeRecord_error h⟩

theorem logged_write {i : Item} (h : (r.write i.record files).1 = .ok ()) :
    r.Logged [i] files (r.write i.record files).2 := by
  unfold write at h ⊢
  cases hpath : r.logPath with
  | none => exact (logged_of_none hpath).mpr rfl
  | some path =>
    rw [hpath] at h
    obtain ⟨hprintable, happend⟩ := Journal.writeRecord_eq_ok h
    obtain ⟨htext, hother⟩ := Files.append_ok happend
    refine (logged_of_some hpath).mpr ⟨?_, hother, List.forall_mem_singleton.mpr hprintable,
      fun _ => Files.present_of_append happend⟩
    rw [List.map_singleton, String.join_cons, String.join_nil, String.append_empty]
    exact htext

/-! ## Making -/

/-- The record of a shader does not depend on its serial. -/
def recordOf (c : ShaderConfig) (source : String) (cached : Bool) (time : String) : Entries Value :=
  Item.record ⟨⟨0, c, source⟩, cached, time⟩

/-- What a note comes to: one that shows what cannot be written out is none. -/
def noted (shown : List Value) (text : String) : List String := if shown.all (·.isPrintable) then [text] else []

theorem note_eq (shown : List Value) (text : String) (s : Session) :
    note shown text s = { s with notes := s.notes ++ noted shown text } := by
  rw [note, noted]
  split
  · rfl
  · rw [List.append_nil]

/-- What is noted of a shader that was made. -/
def madeNotes (c : ShaderConfig) : List String :=
  noted [c.name, c.id] ("INFO: Generated shader " ++ c.name.text ++ " (id=" ++ c.id.text ++ ")")

theorem generate_of_error (h : Program.compose c = .error fault) (r : Registry) (time : String) (cached : Bool)
    (s : Session) : r.generate time c cached s = (.error fault, { s with composed := s.composed ++ [c.id] }) := by
  rw [generate, h]

theorem generate_of_ok {source : String} (h : Program.compose c = .ok source) (r : Registry) (time : String)
    (cached : Bool) (s : Session) : r.generate time c cached s =
      ((r.write (recordOf c source cached time) s.files).1.map fun _ => ⟨s.made, c, source⟩,
        { s with
          composed := s.composed ++ [c.id]
          made := s.made + 1
          notes := s.notes ++ madeNotes c
          files := (r.write (recordOf c source cached time) s.files).2 }) := by
  rw [generate, h, write]
  simp only [note_eq]
  cases r.logPath <;> rfl

/-- A result that does not come of the log failing. -/
def Logs {α : Type} (r : Registry) (result : Except Fault α) : Prop :=
  r.logPath = none ∨ ClearOfFiles result

theorem logs_ok {α : Type} (r : Registry) (a : α) : r.Logs (.ok a) := Or.inr fun _ h => nomatch h

theorem logs_error_iff {α : Type} : r.Logs (.error fault : Except Fault α) ↔ r.logPath = none ∨ fault.isOfFiles = false := by
  simp [Logs, ClearOfFiles]

theorem wrote_one {result : Except Fault ShaderEntry} : r.Wrote (.one result) ↔ r.Logs result := by
  cases result <;> simp [Wrote, Logs, ClearOfFiles, Reply.fault?]

theorem wrote_many {result : Except Fault (List ShaderEntry)} : r.Wrote (.many result) ↔ r.Logs result := by
  cases result <;> simp [Wrote, Logs, ClearOfFiles, Reply.fault?]

theorem wrote_config {result : Except Fault (Option ShaderConfig)} : r.Wrote (.config result) ↔ r.Logs result := by
  cases result <;> simp [Wrote, Logs, ClearOfFiles, Reply.fault?]

inductive Making (r : Registry) (time : String) (c : ShaderConfig) (cached : Bool) (s : Session) :
    Except Fault ShaderEntry × Session → Prop
  | failed {fault : Fault} {s' : Session} : Shader.make c = .error fault → s'.cache = s.cache → s'.made = s.made →
      s'.files = s.files → Making r time c cached s (.error fault, s')
  | made {e : ShaderEntry} {s' : Session} : Shader.make c = .ok e.shader → s'.cache = s.cache →
      s'.made = s.made + 1 → r.Logged [⟨e, cached, time⟩] s.files s'.files → Making r time c cached s (.ok e, s')
  | unwritten {fault : Fault} {s' : Session} : r.logPath ≠ none → fault.isOfFiles = true → s'.cache = s.cache →
      Making r time c cached s (.error fault, s')

theorem generate_making (r : Registry) (time : String) (c : ShaderConfig) (cached : Bool) (s : Session) :
    Making r time c cached s (r.generate time c cached s) := by
  cases hc : Program.compose c with
  | error fault =>
    rw [generate_of_error hc]
    exact .failed (by rw [Shader.make, hc]; rfl) rfl rfl rfl
  | ok source =>
    rw [generate_of_ok hc]
    cases hwrite : (r.write (recordOf c source cached time) s.files).1 with
    | error fault =>
      obtain ⟨hpath, hfault⟩ := write_fault hwrite
      exact .unwritten hpath hfault rfl
    | ok written =>
      have hmake : Shader.make c = .ok ⟨c, source⟩ := by rw [Shader.make, hc]; rfl
      exact .made hmake rfl rfl (logged_write (i := ⟨⟨s.made, c, source⟩, cached, time⟩) hwrite)

/-! ## Custom shaders -/

theorem customShader_of_untold (h : c.validate = .error fault) (r : Registry) (time : String) (s : Session) :
    r.customShader time c s = (.error fault, s) := by
  rw [customShader, h]

theorem customShader_of_valid {verdict : Verdict} (h : c.validate = .ok verdict) (hok : verdict.ok = true) (r : Registry)
    (time : String) (s : Session) : r.customShader time c s = r.generate time c false s := by
  rw [customShader, h]
  exact if_pos hok

theorem customShader_of_refused {verdict : Verdict} (h : c.validate = .ok verdict) (hok : verdict.ok = false)
    (hstrict : r.strict = true) (time : String) (s : Session) :
    r.customShader time c s = (.error (.invalidCustomShader c.name verdict.problems), s) := by
  have htold : (Fault.invalidCustomShader c.name verdict.problems).told = .invalidCustomShader c.name verdict.problems :=
    Fault.told_of_printable (List.forall_mem_singleton.mpr (ShaderConfig.name_of_validate h))
  rw [customShader, h]
  simp only [hok, hstrict, htold]
  rfl

theorem customShader_of_warned {verdict : Verdict} (h : c.validate = .ok verdict) (hok : verdict.ok = false)
    (hstrict : r.strict = false) (time : String) (s : Session) :
    r.customShader time c s = r.generate time c false (note [c.name] (invalidNote c verdict.problems) s) := by
  rw [customShader, h]
  simp only [hok, hstrict]
  rfl

/-- What a registry does for a custom shader: it makes it, refuses it, or makes it with a warning, or it
does nothing as the verdict cannot be told. -/
inductive Customizing (r : Registry) (time : String) (c : ShaderConfig) (s : Session) :
    Except Fault ShaderEntry × Session → Prop
  | untold {fault : Fault} : c.validate = .error fault → Customizing r time c s (.error fault, s)
  | valid {verdict : Verdict} : c.validate = .ok verdict → verdict.ok = true →
      Customizing r time c s (r.generate time c false s)
  | refused {verdict : Verdict} : c.validate = .ok verdict → verdict.ok = false → r.strict = true →
      Customizing r time c s (.error (.invalidCustomShader c.name verdict.problems), s)
  | warned {verdict : Verdict} : c.validate = .ok verdict → verdict.ok = false → r.strict = false →
      Customizing r time c s (r.generate time c false (note [c.name] (invalidNote c verdict.problems) s))

theorem customShader_customizing (r : Registry) (time : String) (c : ShaderConfig) (s : Session) :
    Customizing r time c s (r.customShader time c s) := by
  cases h : c.validate with
  | error fault =>
    rw [customShader_of_untold h]
    exact .untold h
  | ok verdict =>
    cases hok : verdict.ok with
    | true =>
      rw [customShader_of_valid h hok]
      exact .valid h hok
    | false =>
      cases hstrict : r.strict with
      | true =>
        rw [customShader_of_refused h hok hstrict]
        exact .refused h hok hstrict
      | false =>
        rw [customShader_of_warned h hok hstrict]
        exact .warned h hok hstrict

/-! ## Growing -/

theorem cachedIds_perm (s : Session) : (cachedIds s).Perm (s.cache.map (·.1)) := List.mergeSort_perm _ _

theorem mem_cachedIds_iff {id : Int} : id ∈ cachedIds s ↔ id ∈ s.cache.map (·.1) := (cachedIds_perm s).mem_iff

/-- The cache has every id once, with what the preset of the id is composed to. -/
structure Sound (r : Registry) (s : Session) : Prop where
  once : (s.cache.map (·.1)).Nodup
  composed : ∀ p ∈ s.cache, ∃ c, lookup p.1 r.presets = some c ∧ Shader.make c = .ok p.2.shader

/-- Ids with one more, unless it is among them. -/
def withId (ids : List Int) (id : Int) : List Int := if id ∈ ids then ids else ids ++ [id]

/-- What a session gains by looking up presets, those of `found` being the ones it got. -/
structure Grows (r : Registry) (time : String) (found : List Int) (kept : List (Int × ShaderEntry)) (s s' : Session) :
    Prop where
  cache : s'.cache = s.cache ++ kept
  ids : s'.cache.map (·.1) = found.foldl withId (s.cache.map (·.1))
  made : s'.made = s.made + kept.length
  logged : r.Logged (kept.map fun p => ⟨p.2, true, time⟩) s.files s'.files
  composed : ∀ p ∈ kept, ∃ c, lookup p.1 r.presets = some c ∧ Shader.make c = .ok p.2.shader

variable {found found' : List Int} {kept kept' : List (Int × ShaderEntry)}

theorem grows_refl (r : Registry) (time : String) (s : Session) : Grows r time [] [] s s where
  cache := (List.append_nil _).symm
  ids := rfl
  made := rfl
  logged := logged_nil _
  composed := fun _ h => nomatch h

theorem Grows.trans (h : Grows r time found kept s s') (h' : Grows r time found' kept' s' s'') :
    Grows r time (found ++ found') (kept ++ kept') s s'' where
  cache := by rw [h'.cache, h.cache, List.append_assoc]
  ids := by rw [h'.ids, h.ids, List.foldl_append]
  made := by rw [h'.made, h.made, List.length_append, Nat.add_assoc]
  logged := by
    rw [List.map_append]
    exact h.logged.append h'.logged
  composed := fun p hp => (List.mem_append.mp hp).elim (h.composed p) (h'.composed p)

theorem nodup_withId {ids : List Int} (h : ids.Nodup) (id : Int) : (withId ids id).Nodup := by
  unfold withId
  split
  · exact h
  · rename_i hid
    rw [List.nodup_append]
    refine ⟨h, by simp, fun a ha b hb heq => hid ?_⟩
    rwa [← List.mem_singleton.mp hb, ← heq]

theorem nodup_foldl_withId {ids : List Int} (h : ids.Nodup) (found : List Int) : (found.foldl withId ids).Nodup := by
  induction found generalizing ids with
  | nil => exact h
  | cons id rest ih => exact ih (nodup_withId h id)

theorem Grows.sound (h : Grows r time found kept s s') (hs : Sound r s) : Sound r s' where
  once := h.ids ▸ nodup_foldl_withId hs.once found
  composed := by
    rw [h.cache]
    exact fun p hp => (List.mem_append.mp hp).elim (hs.composed p) (h.composed p)

/-! ## Looking up -/

/-- A shader that was made is kept under its id. -/
def keep (id : Int) (asked : Value) : Except Fault ShaderEntry × Session → Except Fault ShaderEntry × Session
  | (.error fault, s) => (.error fault, s)
  | (.ok entry, s) => (.ok entry, { s with cache := s.cache ++ [(id, entry)], asked := s.asked ++ [(id, asked)] })

theorem fetch_of_cached {id : Int} {e : ShaderEntry} (h : lookup id s.cache = some e) (r : Registry) (time : String)
    (asked : Value) : r.fetch time id asked s = (.ok e, s) := by
  rw [fetch, h]

theorem fetch_of_unknown {id : Int} (h : lookup id s.cache = none) (hc : lookup id r.presets = none) (time : String)
    (asked : Value) : r.fetch time id asked s = (.error .noDefaultShader, s) := by
  rw [fetch, h, hc]

theorem fetch_of_new {id : Int} (h : lookup id s.cache = none) (hc : lookup id r.presets = some c) (time : String)
    (asked : Value) : r.fetch time id asked s = keep id asked (r.generate time c true s) := by
  rw [fetch, h, hc]
  dsimp only
  rcases r.generate time c true s with ⟨fault | e, s'⟩ <;> rfl

/-- What a registry does for an id: it has it, it has no such preset, or it makes it now. -/
inductive Fetching (r : Registry) (time : String) (id : Int) (asked : Value) (s : Session) :
    Except Fault ShaderEntry × Session → Prop
  | cached {e : ShaderEntry} : lookup id s.cache = some e → Fetching r time id asked s (.ok e, s)
  | unknown : lookup id s.cache = none → lookup id r.presets = none →
      Fetching r time id asked s (.error .noDefaultShader, s)
  | new {c : ShaderConfig} : lookup id s.cache = none → lookup id r.presets = some c →
      Fetching r time id asked s (keep id asked (r.generate time c true s))

theorem fetch_fetching (r : Registry) (time : String) (id : Int) (asked : Value) (s : Session) :
    Fetching r time id asked s (r.fetch time id asked s) := by
  cases hcached : lookup id s.cache with
  | some e =>
    rw [fetch_of_cached hcached]
    exact .cached hcached
  | none =>
    cases hc : lookup id r.presets with
    | none =>
      rw [fetch_of_unknown hcached hc]
      exact .unknown hcached hc
    | some c =>
      rw [fetch_of_new hcached hc]
      exact .new hcached hc

/-- A preset that can be composed. -/
def composes (c : ShaderConfig) : Bool := (Program.compose c).toBool

theorem make_toBool (c : ShaderConfig) : (Shader.make c).toBool = composes c := by
  rw [Shader.make, composes]
  cases Program.compose c <;> rfl

theorem composes_of_make {c : ShaderConfig} {shader : Shader} (h : Shader.make c = .ok shader) : composes c = true := by
  rw [← make_toBool, h]
  rfl

theorem not_composes_of_make {c : ShaderConfig} (h : Shader.make c = .error fault) : composes c = false := by
  rw [← make_toBool, h]
  rfl

theorem withId_of_mem {ids : List Int} {id : Int} (h : id ∈ ids) : withId ids id = ids := if_pos h

theorem withId_of_not_mem {ids : List Int} {id : Int} (h : id ∉ ids) : withId ids id = ids ++ [id] := if_neg h

variable {id : Int}

/-- What is got of one preset. -/
structure Got (r : Registry) (time : String) (id : Int) (c : ShaderConfig) (s : Session)
    (answer : Except Fault ShaderEntry × Session) : Prop where
  shader : answer.1.map ShaderEntry.shader = Shader.make c
  grows : ∃ kept, Grows r time (if composes c then [id] else []) kept s answer.2
  cached : ∀ e, answer.1 = .ok e → (id, e) ∈ answer.2.cache

theorem got_of_cached {e : ShaderEntry} (hc : lookup id r.presets = some c) (hs : Sound r s)
    (hcached : lookup id s.cache = some e) (time : String) : Got r time id c s (.ok e, s) := by
  have hmem := mem_of_lookup hcached
  obtain ⟨c', hc', hmake⟩ := hs.composed _ hmem
  cases hc.symm.trans hc'
  have hid : id ∈ s.cache.map (·.1) := List.mem_map.mpr ⟨_, hmem, rfl⟩
  have hgrows : Grows r time [id] [] s s := { grows_refl r time s with ids := (withId_of_mem hid).symm }
  exact {
    shader := hmake.symm
    grows := ⟨[], by rwa [composes_of_make hmake]⟩
    cached := by
      rintro e ⟨⟩
      exact hmem }

/-- A preset that cannot be composed is not got. -/
theorem got_of_failed (hmake : Shader.make c = .error fault) (hcache : s'.cache = s.cache)
    (hmade : s'.made = s.made) (hfiles : s'.files = s.files) (time : String) (id : Int) :
    Got r time id c s (.error fault, s') where
  shader := hmake.symm
  grows := by
    rw [not_composes_of_make hmake]
    exact ⟨[], {
      cache := by rw [hcache, List.append_nil]
      ids := congrArg (List.map _) hcache
      made := hmade
      logged := hfiles ▸ logged_nil _
      composed := fun _ h => nomatch h }⟩
  cached := fun _ h => nomatch h

/-- A preset made now goes to the end of the cache. -/
theorem got_of_made {e : ShaderEntry} {asked : List (Int × Value)} (hc : lookup id r.presets = some c)
    (hnew : id ∉ s.cache.map (·.1)) (hmake : Shader.make c = .ok e.shader) (hcache : s'.cache = s.cache)
    (hmade : s'.made = s.made + 1) (hlogged : r.Logged [⟨e, true, time⟩] s.files s'.files) :
    Got r time id c s (.ok e, { s' with cache := s'.cache ++ [(id, e)], asked }) where
  shader := hmake.symm
  grows := by
    rw [composes_of_make hmake, hcache]
    exact ⟨[(id, e)], {
      cache := rfl
      ids := by
        rw [List.map_append]
        exact (withId_of_not_mem hnew).symm
      made := hmade
      logged := hlogged
      composed := List.forall_mem_singleton.mpr ⟨c, hc, hmake⟩ }⟩
  cached := by
    rintro e ⟨⟩
    exact List.mem_append_right _ List.mem_cons_self

/-- The preset of an id is what is got, from the cache or made now. -/
theorem fetch_spec (time : String) (asked : Value) (hc : lookup id r.presets = some c) (hs : Sound r s)
    (hlog : r.Logs (r.fetch time id asked s).1) : Got r time id c s (r.fetch time id asked s) := by
  have hfetching := fetch_fetching r time id asked s
  generalize r.fetch time id asked s = answer at hlog hfetching ⊢
  cases hfetching with
  | cached hcached => exact got_of_cached hc hs hcached time
  | unknown _ hnone => cases hc.symm.trans hnone
  | new hcached hc' =>
    cases hc.symm.trans hc'
    have hmaking := generate_making r time c true s
    generalize r.generate time c true s = made at hlog hmaking ⊢
    cases hmaking with
    | failed hmake hcache hmade hfiles => exact got_of_failed hmake hcache hmade hfiles time id
    | made hmake hcache hmade hlogged =>
      exact got_of_made hc (lookup_eq_none_iff.mp hcached) hmake hcache hmade hlogged
    | unwritten hpath hfault hcache => exact absurd (logs_error_iff.mp hlog) (by simp [hpath, hfault])

/-- The ids of presets up to the first that cannot be composed. -/
def composable (presets : List (Int × ShaderConfig)) : List Int :=
  (presets.takeWhile fun p => composes p.2).map (·.1)

theorem composable_cons {p : Int × ShaderConfig} {rest : List (Int × ShaderConfig)} :
    composable (p :: rest) = if composes p.2 then p.1 :: composable rest else [] := by
  rw [composable, List.takeWhile_cons]
  split <;> rfl

/-- What is got of presets, one after another. -/
structure Fetched (r : Registry) (time : String) (presets : List (Int × ShaderConfig))
    (result : Except Fault (List ShaderEntry)) (s s' : Session) : Prop where
  shaders : result.map (List.map ShaderEntry.shader) = presets.mapM fun p => Shader.make p.2
  grows : ∃ kept, Grows r time (composable presets) kept s s'
  cached : ∀ l, result = .ok l → ∀ e ∈ l, e ∈ s'.cache.map (·.2)

theorem fetchAll_spec {presets : List (Int × ShaderConfig)} (hp : ∀ p ∈ presets, lookup p.1 r.presets = some p.2)
    (hs : Sound r s) (hlog : r.Logs (r.fetchAll time (presets.map (·.1)) s).1) :
    Fetched r time presets (r.fetchAll time (presets.map (·.1)) s).1 s
      (r.fetchAll time (presets.map (·.1)) s).2 := by
  induction presets generalizing s with
  | nil => exact ⟨rfl, ⟨[], grows_refl r time s⟩, by rintro l ⟨⟩; exact fun e h => nomatch h⟩
  | cons p rest ih =>
    obtain ⟨hc, hrest⟩ := List.forall_mem_cons.mp hp
    have hfetch := fetch_spec time (.int p.1) hc hs
    rw [List.map_cons, fetchAll] at hlog ⊢
    rcases hx : r.fetch time p.1 (.int p.1) s with ⟨fault | e, s'⟩ <;> rw [hx] at hlog hfetch
    · -- The first preset cannot be composed, and there it stops.
      obtain ⟨hshader, ⟨kept, hgrows⟩, -⟩ := hfetch (logs_error_iff.mpr (logs_error_iff.mp hlog))
      have hmake : Shader.make p.2 = .error fault := hshader.symm
      have hnot := not_composes_of_make hmake
      refine ⟨?_, ⟨kept, ?_⟩, fun l h => nomatch h⟩
      · rw [List.mapM_cons, hmake]
        rfl
      · rw [composable_cons, hnot]
        rwa [hnot] at hgrows
    · obtain ⟨hshader, ⟨kept, hgrows⟩, hmem⟩ := hfetch (logs_ok r e)
      have hmake : Shader.make p.2 = .ok e.shader := hshader.symm
      have hcomposes := composes_of_make hmake
      have hgrows : Grows r time [p.1] kept s s' := by rwa [hcomposes] at hgrows
      have hfound : composable (p :: rest) = [p.1] ++ composable rest := by
        rw [composable_cons, hcomposes]
        rfl
      have hall := ih hrest (hgrows.sound hs)
      rcases hy : r.fetchAll time (rest.map (·.1)) s' with ⟨fault | l, s''⟩ <;> simp only [hy] at hall hlog ⊢
      · obtain ⟨hshaders, ⟨kept', hgrows'⟩, -⟩ := hall (logs_error_iff.mpr (logs_error_iff.mp hlog))
        refine ⟨?_, ⟨_, hfound ▸ hgrows.trans hgrows'⟩, fun l h => nomatch h⟩
        rw [List.mapM_cons, hmake, ← hshaders]
        rfl
      · obtain ⟨hshaders, ⟨kept', hgrows'⟩, hcached⟩ := hall (logs_ok r l)
        refine ⟨?_, ⟨_, hfound ▸ hgrows.trans hgrows'⟩, ?_⟩
        · rw [List.mapM_cons, hmake, ← hshaders]
          rfl
        · rintro l ⟨⟩
          have hkept : e ∈ s''.cache.map (·.2) := by
            rw [hgrows'.cache]
            exact List.mem_map.mpr ⟨_, List.mem_append_left _ (hmem e rfl), rfl⟩
          exact List.forall_mem_cons.mpr ⟨hkept, hcached _ rfl⟩

end Registry

end ShaderLoom
