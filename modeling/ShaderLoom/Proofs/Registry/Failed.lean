/-
  ShaderLoom.Proofs.Registry.Failed — lookups that fail.

  A preset is kept only once it is composed and its line is in the log, so when either fails the session
  is left as it was for whatever comes later, and every file holds what it held (`fetch_error`); at most
  the log was opened for a record that could not be written out. Looking all presets up stops at the
  first that fails (`fetchAll_error`) and keeps those before it (`mem_ids_fetchAll`), which are those of
  smaller ids. Both hold of every session and of catalogs with presets that cannot be composed
  (`failures_leave_no_trace`).
-/

import ShaderLoom.Proofs.Registry.Alike
import ShaderLoom.Proofs.Registry.Transparent

namespace ShaderLoom.Registry

variable {r : Registry} {s s' t : Session} {time : String} {c : ShaderConfig} {cached : Bool} {fault : Fault}
  {id : Int} {asked : Value} {e : ShaderEntry} {ids : List Int}

/-! ## One preset -/

/-- Every file holds what it held, and none is new unless a record could not be written out: the log is
opened for it first, and is there then if it was not. -/
structure Unchanged (fault : Fault) (files files' : Files) : Prop where
  texts : ∀ p, files'.textAt p = files.textAt p
  contents : fault ≠ .unwritable → files'.contents = files.contents

/-- Nothing came of it: what is kept, what the files hold and all that comes later are as before. -/
structure Untouched (r : Registry) (fault : Fault) (s s' : Session) : Prop extends Unnoticed r s s' where
  files : Unchanged fault s.files s'.files
  laterFiles : ∀ events, Unchanged fault (r.left events s).files (r.left events s').files

theorem unchanged_refl (fault : Fault) (files : Files) : Unchanged fault files files := ⟨fun _ => rfl, fun _ => rfl⟩

theorem Alike.untouched (h : Alike r s' s) (hfiles : Unchanged fault s.files s'.files) : Untouched r fault s s' where
  toUnnoticed := h.unnoticed
  files := hfiles
  laterFiles := fun events => {
    texts := left_alike h (lasts_texts r) (fun _ _ => rfl) hfiles.texts events
    contents := fun hfault => left_alike h (lasts_contents r) (fun _ => rfl) (hfiles.contents hfault) events }

theorem write_unchanged {record : Entries Value} {files : Files} (h : (r.write record files).1 = .error fault) :
    Unchanged fault files (r.write record files).2 := by
  unfold write at h ⊢
  cases hpath : r.logPath with
  | none => exact unchanged_refl fault files
  | some path =>
    simp only [hpath] at h
    refine ⟨fun p => ?_, Journal.contents_of_writeRecord_error h⟩
    simp only [Journal.textAt_writeRecord, h]
    exact String.append_empty

theorem generate_error (h : r.generate time c cached s = (.error fault, s')) : Unchanged fault s.files s'.files := by
  cases hc : Program.compose c with
  | error fault' =>
    rw [generate_of_error hc] at h
    cases h
    exact unchanged_refl fault s.files
  | ok source =>
    rw [generate_of_ok hc] at h
    obtain ⟨hresult, rfl⟩ := Prod.mk.inj h
    cases hwrite : (r.write (recordOf c source cached time) s.files).1 with
    | error fault' =>
      rw [hwrite] at hresult
      cases hresult
      exact write_unchanged hwrite
    | ok written =>
      rw [hwrite] at hresult
      cases hresult

/-- A preset that is not got leaves the session as it was. -/
theorem fetch_error (h : r.fetch time id asked s = (.error fault, s')) :
    id ∉ s.cache.map (·.1) ∧ Alike r s' s ∧ Unchanged fault s.files s'.files := by
  have hfetching := fetch_fetching r time id asked s
  rw [h] at hfetching
  generalize hanswer : (Except.error fault, s') = answer at hfetching
  cases hfetching with
  | cached => cases hanswer
  | unknown hcached =>
    cases hanswer
    exact ⟨lookup_eq_none_iff.mp hcached, alike_refl r s, unchanged_refl _ s.files⟩
  | @new c hcached =>
    have halike := alike_generate r time c true s
    rcases hmade : r.generate time c true s with ⟨fault' | e, s''⟩
    · rw [hmade] at hanswer halike
      cases hanswer
      exact ⟨lookup_eq_none_iff.mp hcached, halike, generate_error hmade⟩
    · rw [hmade] at hanswer
      cases hanswer

theorem fallback_error {shown : List Value} {text : String}
    (h : r.fallback time (note shown text s) = (.error fault, s')) : Untouched r fault s s' := by
  obtain ⟨-, halike, hfiles⟩ := fetch_error h
  rw [note_eq] at hfiles
  exact (halike.trans (alike_note r shown text s)).untouched hfiles

theorem shaderById_error {id : Value} (h : r.shaderById time id s = (.error fault, s')) : Untouched r fault s s' := by
  rw [shaderById] at h
  split at h
  · split at h
    · obtain ⟨-, halike, hfiles⟩ := fetch_error h
      exact halike.untouched hfiles
    · exact fallback_error h
  · cases h
    exact (alike_refl r s).untouched (unchanged_refl _ s.files)

theorem shaderByName_error {name : Value} (h : r.shaderByName time name s = (.error fault, s')) :
    Untouched r fault s s' := by
  rw [shaderByName] at h
  split at h
  · obtain ⟨-, halike, hfiles⟩ := fetch_error h
    exact halike.untouched hfiles
  · exact fallback_error h

/-! ## All presets -/

/-- A preset that is got is in the cache, and nothing else is new there. -/
theorem mem_ids_fetch (h : r.fetch time id asked s = (.ok e, s')) (other : Int) :
    other ∈ s'.cache.map (·.1) ↔ other ∈ s.cache.map (·.1) ∨ other = id := by
  have hfetching := fetch_fetching r time id asked s
  rw [h] at hfetching
  generalize hanswer : (Except.ok e, s') = answer at hfetching
  cases hfetching with
  | cached hcached =>
    cases hanswer
    have hid : id ∈ s.cache.map (·.1) := List.mem_map.mpr ⟨_, mem_of_lookup hcached, rfl⟩
    exact ⟨Or.inl, fun h => h.elim (fun h => h) fun h => h ▸ hid⟩
  | unknown => cases hanswer
  | @new c =>
    have hsame := (alike_generate r time c true s).ids
    rcases hmade : r.generate time c true s with ⟨fault' | e', s''⟩
    · rw [hmade] at hanswer
      cases hanswer
    · rw [hmade] at hanswer hsame
      cases hanswer
      show other ∈ (s''.cache ++ [(id, e)]).map (·.1) ↔ _
      rw [List.map_append, hsame, List.mem_append, List.map_singleton, List.mem_singleton]

theorem mem_ids_fetchAll {l : List ShaderEntry} (h : r.fetchAll time ids s = (.ok l, s')) (other : Int) :
    other ∈ s'.cache.map (·.1) ↔ other ∈ s.cache.map (·.1) ∨ other ∈ ids := by
  induction ids generalizing s l with
  | nil =>
    cases h
    simp
  | cons id rest ih =>
    rw [fetchAll] at h
    rcases hx : r.fetch time id (.int id) s with ⟨fault | e, t⟩
    · rw [hx] at h
      cases h
    · rw [hx] at h
      dsimp only at h
      rcases hy : r.fetchAll time rest t with ⟨fault | l', u⟩
      · rw [hy] at h
        cases h
      · rw [hy] at h
        cases h
        rw [ih hy, mem_ids_fetch hx, List.mem_cons, or_assoc]

/-- Looking presets up fails at one of them, after all before it were got. -/
theorem fetchAll_error (h : r.fetchAll time ids s = (.error fault, s')) :
    ∃ before failing rest l t, ids = before ++ failing :: rest ∧ r.fetchAll time before s = (.ok l, t) ∧
      r.fetch time failing (.int failing) t = (.error fault, s') := by
  induction ids generalizing s with
  | nil => cases h
  | cons id rest ih =>
    rw [fetchAll] at h
    rcases hx : r.fetch time id (.int id) s with ⟨fault' | e, t⟩
    · rw [hx] at h
      cases h
      exact ⟨[], id, rest, [], s, rfl, rfl, hx⟩
    · rw [hx] at h
      dsimp only at h
      rcases hy : r.fetchAll time rest t with ⟨fault' | l', u⟩
      · rw [hy] at h
        cases h
        obtain ⟨before, failing, after, l, v, rfl, hbefore, hfailing⟩ := ih hy
        refine ⟨id :: before, failing, after, e :: l, v, rfl, ?_, hfailing⟩
        rw [fetchAll, hx]
        simp only [hbefore]
      · rw [hy] at h
        cases h

/-- In ascending order what stands before an id is what is smaller. -/
theorem filter_lt_of_ascending {before rest : List Int} {failing : Int}
    (h : (before ++ failing :: rest).Pairwise (· < ·)) :
    (before ++ failing :: rest).filter (fun id => decide (id < failing)) = before := by
  obtain ⟨-, hafter, hbefore⟩ := List.pairwise_append.mp h
  have hself : before.filter (fun id => decide (id < failing)) = before :=
    List.filter_eq_self.mpr fun id hid => decide_eq_true (hbefore id hid failing List.mem_cons_self)
  have hnone : (failing :: rest).filter (fun id => decide (id < failing)) = [] := by
    rw [List.filter_eq_nil_iff]
    intro id hid hlt
    have hlt := of_decide_eq_true hlt
    rcases List.mem_cons.mp hid with rfl | hid
    · omega
    · have := (List.pairwise_cons.mp hafter).1 id hid
      omega
  rw [List.filter_append, hself, hnone, List.append_nil]

/-- Looking all presets up stopped at one: those of smaller ids were got, it was not, and what is newly
kept are those of the smaller ids that were not kept yet. -/
structure StoppedAt (r : Registry) (catalog : List (Int × ShaderConfig)) (time : String) (fault : Fault) (failing : Int)
    (s s' : Session) : Prop where
  preset : failing ∈ catalog.map (·.1)
  new : failing ∉ cachedIds s
  failed : ∃ l t, r.fetchAll time ((r.presets.map (·.1)).filter fun id => decide (id < failing)) s = (.ok l, t) ∧
    r.shaderById time (.int failing) t = (.error fault, s')
  stay : ∀ id ∈ cachedIds s, id ∈ cachedIds s'
  newly : ∀ id, id ∈ cachedIds s' ∧ id ∉ cachedIds s ↔ id ∈ catalog.map (·.1) ∧ id ∉ cachedIds s ∧ id < failing

theorem shaderById_of_preset (h : id ∈ r.presets.map (·.1)) (time : String) (s : Session) :
    r.shaderById time (.int id) s = r.fetch time id (.int id) s := by
  have hknown : r.known? (.int id) = some id := by
    cases hc : lookup id r.presets with
    | none => exact absurd h (lookup_eq_none_iff.mp hc)
    | some c => simp [known?, Value.wholeNumber?, Option.filter, hc]
  have hkey : (Value.int id).isKey = true := rfl
  rw [shaderById, if_pos hkey, hknown]

theorem allShaders_error {catalog : List (Int × ShaderConfig)} (hholds : Holds r catalog)
    (h : r.allShaders time s = (.error fault, s')) : ∃ failing, StoppedAt r catalog time fault failing s s' := by
  have hascending : (r.presets.map (·.1)).Pairwise (· < ·) := hholds.presets ▸ ascending_keys hholds.once
  have hcatalog : ∀ id, id ∈ r.presets.map (·.1) ↔ id ∈ catalog.map (·.1) := fun id => (hholds.perm.map _).mem_iff
  obtain ⟨before, failing, rest, l, t, hsplit, hbefore, hfailing⟩ := fetchAll_error h
  obtain ⟨hnew, halike, -⟩ := fetch_error hfailing
  have hsmaller : (r.presets.map (·.1)).filter (fun id => decide (id < failing)) = before := by
    rw [hsplit] at hascending ⊢
    exact filter_lt_of_ascending hascending
  have hpreset : failing ∈ r.presets.map (·.1) := hsplit ▸ List.mem_append_right _ List.mem_cons_self
  have hkept : ∀ id, id ∈ cachedIds s' ↔ id ∈ cachedIds s ∨ id ∈ catalog.map (·.1) ∧ id < failing := by
    intro id
    rw [halike.cachedIds_eq, mem_cachedIds_iff, mem_cachedIds_iff, mem_ids_fetchAll hbefore, ← hsmaller,
      List.mem_filter, decide_eq_true_eq, hcatalog]
  refine ⟨failing, (hcatalog failing).mp hpreset, fun hid => ?_, ⟨l, t, hsmaller ▸ hbefore, ?_⟩,
    fun id hid => ?_, fun id => ?_⟩
  · exact hnew ((mem_ids_fetchAll hbefore failing).mpr (Or.inl (mem_cachedIds_iff.mp hid)))
  · rw [shaderById_of_preset hpreset, hfailing]
  · exact (hkept id).mpr (Or.inl hid)
  · rw [hkept]
    constructor
    · rintro ⟨hid | ⟨hid, hlt⟩, hnot⟩
      · exact absurd hid hnot
      · exact ⟨hid, hnot, hlt⟩
    · intro ⟨hid, hnot, hlt⟩
      exact ⟨Or.inr ⟨hid, hlt⟩, hnot⟩

/-- A lookup that fails leaves the session as it was for all that comes later, and looking all presets
up keeps those of smaller ids than the one that fails. -/
theorem failures_leave_no_trace {pairs : List (Int × ShaderConfig)} {strict : Bool} {logPath : Option String}
    (h : ofCatalog pairs strict logPath = .ok r) (time : String) (s : Session) :
    (∀ id fault s', r.shaderById time id s = (.error fault, s') → Untouched r fault s s') ∧
      (∀ name fault s', r.shaderByName time name s = (.error fault, s') → Untouched r fault s s') ∧
      ∀ fault s', r.allShaders time s = (.error fault, s') →
        ∃ failing, StoppedAt r (filed pairs) time fault failing s s' :=
  ⟨fun _ _ _ => shaderById_error, fun _ _ _ => shaderByName_error, fun _ _ => allShaders_error (holds_of_catalog h)⟩

/-- A preset of an effect that there is not. -/
theorem compose_noEffect :
    Program.compose (smallConfig 3 "THREE" "no_effect") = .error (.unknownEffect (.str "no_effect")) := rfl

theorem smallCatalog_unlogged : ∃ r, ofCatalog smallCatalog true none = .ok r := Outcome.exists_ok (by decide +kernel)

theorem smallCatalog_failures : ∃ r, ofCatalog smallCatalog true none = .ok r ∧
    (∃ fault s', r.shaderById "09:00" (.int 3) {} = (.error fault, s') ∧ Untouched r fault {} s') ∧
    ∃ fault s' failing, r.allShaders "09:01" {} = (.error fault, s') ∧
      StoppedAt r (filed smallCatalog) "09:01" fault failing {} s' := by
  obtain ⟨r, h⟩ := smallCatalog_unlogged
  have hholds := holds_of_catalog h
  have hthree : ((3 : Int), smallConfig 3 "THREE" "no_effect") ∈ filed smallCatalog :=
    List.mem_cons_of_mem _ List.mem_cons_self
  have hpreset : (3 : Int) ∈ r.presets.map (·.1) := List.mem_map_of_mem (hholds.perm.mem_iff.mpr hthree)
  obtain ⟨hbyId, -, hall⟩ := failures_leave_no_trace h "09:00" {}
  have hfails : r.shaderById "09:00" (.int 3) {} =
      (.error (.unknownEffect (.str "no_effect")), { composed := [.int 3] }) := by
    rw [shaderById_of_preset hpreset, fetch_of_new rfl (hholds.lookup_of_mem hthree),
      generate_of_error compose_noEffect]
    rfl
  refine ⟨r, h, ⟨_, _, hfails, hbyId _ _ _ hfails⟩, ?_⟩
  rcases hresult : r.allShaders "09:01" {} with ⟨fault | l, s'⟩
  · obtain ⟨failing, hstopped⟩ := (failures_leave_no_trace h "09:01" {}).2.2 fault s' hresult
    exact ⟨fault, s', failing, rfl, hstopped⟩
  · -- All of them together would include the one that cannot be composed.
    have hnone : r.logPath = none := by
      obtain ⟨-, rfl⟩ := ofCatalog_ok h
      rfl
    have hspec : (r.allShaders "09:01" {}).1.map (List.map ShaderEntry.shader) = _ :=
      (allShaders_spec hholds (sound_fresh r {}) (Or.inl hnone)).shaders
    rw [hresult] at hspec
    obtain ⟨_, -, hmake⟩ := Outcome.mem_of_mapM hspec.symm _ ((ascending_perm _).mem_iff.mpr hthree)
    cases hmake

end ShaderLoom.Registry
