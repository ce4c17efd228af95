/-
  ShaderLoom.Proofs.Registry.Served — one request, whatever was asked before.

  The reference finds in the catalog what the registry finds among its presets, by id and by name
  (`shaderById_eq`, `shaderByName_eq`). So on a sound session a request is replied to as the reference
  replies, and the session grows by the presets looked up or, for a custom shader, by nothing but the
  log (`serve_spec`).
-/

import ShaderLoom.Proofs.Registry.Making

namespace ShaderLoom.Registry

open Outcome

/-! ## Presets and catalog -/

/-- A registry that was built of a catalog. -/
structure Holds (r : Registry) (catalog : List (Int × ShaderConfig)) : Prop where
  checked : Checked catalog
  once : (catalog.map (·.1)).Nodup
  presets : r.presets = ascending catalog

theorem holds_of_catalog {pairs : List (Int × ShaderConfig)} {strict : Bool} {logPath : Option String} {r : Registry}
    (h : ofCatalog pairs strict logPath = .ok r) : Holds r (filed pairs) := by
  obtain ⟨hchecked, rfl⟩ := ofCatalog_ok h
  exact ⟨hchecked, nodup_keys_filed pairs, rfl⟩

section Catalog

variable {r : Registry} {catalog : List (Int × ShaderConfig)} {p : Int × ShaderConfig} {id : Int} {name : Value}

theorem Holds.perm (h : Holds r catalog) : r.presets.Perm catalog := h.presets ▸ ascending_perm catalog

theorem Holds.lookup_eq (h : Holds r catalog) (id : Int) : lookup id r.presets = lookup id catalog :=
  (lookup_of_perm h.perm.symm h.once).symm

theorem Holds.lookup_of_mem (h : Holds r catalog) (hp : p ∈ catalog) : lookup p.1 r.presets = some p.2 :=
  h.lookup_eq p.1 ▸ Registry.lookup_of_mem h.once hp

theorem byId?_eq (catalog : List (Int × ShaderConfig)) (id : Int) :
    Reference.byId? catalog id = (lookup id catalog).map fun c => (id, c) := by
  rw [Reference.byId?, lookup]
  cases h : catalog.find? (·.1 == id) with
  | none => rfl
  | some p =>
    have hid := List.find?_some h
    exact congrArg some (Prod.ext (eq_of_beq hid) rfl)

theorem mem_of_byId? (h : Reference.byId? catalog id = some p) : p ∈ catalog := List.mem_of_find?_eq_some h

/-- Names tell presets apart. -/
theorem eq_of_names (h : Checked catalog) {q : Int × ShaderConfig} (hp : p ∈ catalog) (hq : q ∈ catalog)
    (hpn : p.2.name.equals name = true) (hqn : q.2.name.equals name = true) : p = q :=
  h.once p hp q hq (Value.equals_of_common (h.keyed p hp) (h.keyed q hq) hpn hqn)

theorem byName?_eq_some_iff (h : Checked catalog) (hn : catalog.Nodup) :
    Reference.byName? catalog name = some p ↔ p ∈ catalog ∧ p.2.name.equals name = true := by
  have hmem : ∀ q, q ∈ catalog.filter (fun p => p.2.name.equals name) ↔ q ∈ catalog ∧ q.2.name.equals name = true :=
    fun q => List.mem_filter
  have hnodup : (catalog.filter fun p => p.2.name.equals name).Nodup := hn.filter _
  rw [← hmem, Reference.byName?]
  generalize hl : catalog.filter (fun p => p.2.name.equals name) = l at hmem hnodup
  match l, hnodup with
  | [], _ => simp
  | [q], _ => simp [eq_comm]
  | q :: q' :: rest, hnodup =>
    -- Two presets of one name are one, and it is not there twice.
    obtain ⟨hq, hqn⟩ := (hmem q).mp (by simp)
    obtain ⟨hq', hqn'⟩ := (hmem q').mp (by simp)
    have heq := eq_of_names h hq hq' hqn hqn'
    simp [heq] at hnodup

theorem Holds.find?_name (h : Holds r catalog) (name : Value) :
    (r.presets.find? fun p => p.2.name.equals name) = Reference.byName? catalog name := by
  have hn : catalog.Nodup := List.Pairwise.of_map (·.1) (fun _ _ hne heq => hne (congrArg (·.1) heq)) h.once
  cases hfind : r.presets.find? (fun p => p.2.name.equals name) with
  | none =>
    refine (Option.eq_none_iff_forall_ne_some.mpr fun p hp => ?_).symm
    obtain ⟨hmem, hname⟩ := (byName?_eq_some_iff h.checked hn).mp hp
    exact List.find?_eq_none.mp hfind p (h.perm.mem_iff.mpr hmem) hname
  | some p =>
    have hmem := h.perm.mem_iff.mp (List.mem_of_find?_eq_some hfind)
    have hname := List.find?_some hfind
    exact ((byName?_eq_some_iff h.checked hn).mpr ⟨hmem, hname⟩).symm

end Catalog

/-! ## Looking up -/

variable {r : Registry} {catalog : List (Int × ShaderConfig)} {time : String} {s s' : Session}
  {result : Except Fault ShaderEntry}

/-- A registry that fetches a preset of its catalog, on a session with other notes at most. -/
def Fetches (r : Registry) (time : String) (p : Int × ShaderConfig) (s : Session)
    (answer : Except Fault ShaderEntry × Session) : Prop :=
  lookup p.1 r.presets = some p.2 ∧ ∃ asked notes, answer = r.fetch time p.1 asked { s with notes }

theorem fallback_eq (h : Holds r catalog) (time : String) (shown : List Value) (text : String) (s : Session) :
    ∃ p, Reference.byId? catalog 0 = some p ∧ Fetches r time p s (r.fallback time (note shown text s)) := by
  obtain ⟨c, hc⟩ := h.checked.standard
  rw [note_eq]
  exact ⟨(0, c), by rw [byId?_eq, hc]; rfl, h.lookup_eq 0 ▸ hc, _, _, rfl⟩

theorem shaderById_eq {id : Value} (h : Holds r catalog) (time : String) (s : Session) (hkey : id.isKey = true) :
    ∃ p, Reference.orStandard catalog (id.wholeNumber?.bind (Reference.byId? catalog)) = some p ∧
      Fetches r time p s (r.shaderById time id s) := by
  have hknown : r.known? id = (id.wholeNumber?.bind (Reference.byId? catalog)).map (·.1) := by
    rw [known?]
    cases id.wholeNumber? with
    | none => rfl
    | some n =>
      rw [Option.bind_some, byId?_eq, ← h.lookup_eq]
      cases hn : lookup n r.presets <;> simp [Option.filter, hn]
  rw [shaderById, if_pos hkey, hknown]
  cases hfound : id.wholeNumber?.bind (Reference.byId? catalog) with
  | none => exact fallback_eq h time _ _ s
  | some p =>
    obtain ⟨n, -, hn⟩ := Option.bind_eq_some_iff.mp hfound
    exact ⟨p, rfl, h.lookup_of_mem (mem_of_byId? hn), _, _, rfl⟩

theorem shaderByName_eq (h : Holds r catalog) (time : String) (s : Session) (name : Value) :
    ∃ p, Reference.orStandard catalog (Reference.byName? catalog name) = some p ∧
      Fetches r time p s (r.shaderByName time name s) := by
  unfold shaderByName
  have hname := h.find?_name name
  cases hfind : r.presets.find? fun p => p.2.name.equals name with
  | none =>
    rw [← hname, hfind]
    exact fallback_eq h time _ _ s
  | some p =>
    rw [← hname, hfind]
    have hmem := h.perm.mem_iff.mp (List.mem_of_find?_eq_some hfind)
    exact ⟨p, rfl, h.lookup_of_mem hmem, _, _, rfl⟩

theorem Fetches.got {p : Int × ShaderConfig} {answer : Except Fault ShaderEntry × Session}
    (h : Fetches r time p s answer) (hs : Sound r s) (hlog : r.Logs answer.1) : Got r time p.1 p.2 s answer := by
  obtain ⟨hp, asked, notes, rfl⟩ := h
  have hs' : Sound r { s with notes } := ⟨hs.once, hs.composed⟩
  obtain ⟨hshader, ⟨kept, hgrows⟩, hmem⟩ := fetch_spec time asked hp hs' hlog
  exact ⟨hshader, ⟨kept, hgrows.cache, hgrows.ids, hgrows.made, hgrows.logged, hgrows.composed⟩, hmem⟩

/-! ## Serving -/

/-- What a request leaves: presets looked up, a custom shader made, or one that was not. -/
inductive Gain (r : Registry) (catalog : List (Int × ShaderConfig)) (q : Request) (reply : Reply ShaderEntry)
    (s s' : Session) : Prop
  | lookups {kept : List (Int × ShaderEntry)} : (∀ c, q.call ≠ .custom c) →
      Grows r q.time (composable (Reference.lookedUp catalog q.call)) kept s s' →
      (∀ e ∈ reply.entries, e ∈ s'.cache.map (·.2)) → Gain r catalog q reply s s'
  | custom {c : ShaderConfig} {e : ShaderEntry} : q.call = .custom c → reply = .one (.ok e) →
      Shader.make c = .ok e.shader → s'.cache = s.cache → s'.made = s.made + 1 →
      r.Logged [⟨e, false, q.time⟩] s.files s'.files → Gain r catalog q reply s s'
  | refused {c : ShaderConfig} {fault : Fault} : q.call = .custom c → reply = .one (.error fault) →
      s'.cache = s.cache → s'.made = s.made → s'.files = s.files → Gain r catalog q reply s s'

/-- A turn that says what the reference says and leaves what it says. -/
structure Served (r : Registry) (catalog : List (Int × ShaderConfig)) (t : Turn) : Prop where
  sound : Sound r t.before
  reply : ∀ reply, Reference.reply? catalog r.strict t.request.call = some reply →
    t.reply.map ShaderEntry.shader = reply
  gain : Gain r catalog t.request t.reply t.before t.after

/-- A custom shader that was made, or whose making failed for another reason than the log. -/
theorem made_spec (catalog : List (Int × ShaderConfig)) {c : ShaderConfig} (notes : List String)
    (h : Making r time c false { s with notes } (result, s')) (hlog : r.Logs result) :
    result.map ShaderEntry.shader = Shader.make c ∧ Gain r catalog ⟨.custom c, time⟩ (.one result) s s' := by
  cases h with
  | failed hmake hcache hmade hfiles => exact ⟨hmake.symm, .refused rfl rfl hcache hmade hfiles⟩
  | made hmake hcache hmade hlogged => exact ⟨hmake.symm, .custom rfl rfl hmake hcache hmade hlogged⟩
  | unwritten hpath hfault hcache => exact absurd (logs_error_iff.mp hlog) (by simp [hpath, hfault])

/-- A custom shader is made or not, and never kept. -/
theorem customShader_spec (catalog : List (Int × ShaderConfig)) {c : ShaderConfig} (hlog : r.Logs (r.customShader time c s).1) :
    (r.customShader time c s).1.map ShaderEntry.shader = Reference.custom r.strict c ∧
      Gain r catalog ⟨.custom c, time⟩ (.one (r.customShader time c s).1) s (r.customShader time c s).2 := by
  have hcustomizing := customShader_customizing r time c s
  generalize r.customShader time c s = answer at hcustomizing hlog ⊢
  cases hcustomizing with
  | untold h =>
    rw [Reference.custom, h]
    exact ⟨rfl, .refused rfl rfl rfl rfl rfl⟩
  | valid h hok =>
    simp only [Reference.custom, h, hok, Bool.not_true, Bool.and_false]
    exact made_spec catalog s.notes (generate_making r time c false s) hlog
  | refused h hok hstrict =>
    simp only [Reference.custom, h, hok, hstrict]
    exact ⟨rfl, .refused rfl rfl rfl rfl rfl⟩
  | warned h hok hstrict =>
    simp only [Reference.custom, h, hok, hstrict, Bool.false_and]
    rw [note_eq] at hlog ⊢
    exact made_spec catalog _ (generate_making r time c false _) hlog

theorem allShaders_spec (h : Holds r catalog) (hs : Sound r s) (hlog : r.Logs (r.allShaders time s).1) :
    Fetched r time (ascending catalog) (r.allShaders time s).1 s (r.allShaders time s).2 := by
  rw [allShaders, h.presets] at hlog ⊢
  exact fetchAll_spec (fun p hp => h.lookup_of_mem ((ascending_perm catalog).mem_iff.mp hp)) hs hlog

theorem mem_entries_one {result : Except Fault ShaderEntry} {e : ShaderEntry} (h : e ∈ (Reply.one result).entries) :
    result = .ok e := by
  cases result with
  | error fault => cases h
  | ok e' => rw [List.mem_singleton.mp h]

theorem mem_entries_many {result : Except Fault (List ShaderEntry)} {e : ShaderEntry}
    (h : e ∈ (Reply.many result).entries) : ∃ l, result = .ok l ∧ e ∈ l := by
  cases result with
  | error fault => cases h
  | ok l => exact ⟨l, rfl, h⟩

theorem config_eq (h : Holds r catalog) (id : Value) : r.config id =
    if id.isKey then .ok ((id.wholeNumber?.bind (Reference.byId? catalog)).map (·.2)) else .error .wrongKind := by
  have hlookup : (fun n => lookup n r.presets) = fun n => (Reference.byId? catalog n).map (·.2) := by
    funext n
    rw [byId?_eq, h.lookup_eq]
    cases lookup n catalog <;> rfl
  rw [config, hlookup]
  cases id.wholeNumber? <;> rfl

/-- A request that looks one preset up. -/
theorem Fetches.served {p : Int × ShaderConfig} {call : Call} (hp : Fetches r time p s (result, s'))
    (hs : Sound r s) (hlog : r.Logs result) (hfound : Reference.lookedUp catalog call = [p])
    (hcall : ∀ c, call ≠ .custom c)
    (hreply : ∀ reply, Reference.reply? catalog r.strict call = some reply → .one (Shader.make p.2) = reply) :
    Served r catalog ⟨⟨call, time⟩, s, .one result, s'⟩ := by
  obtain ⟨hshader, ⟨kept, hgrows⟩, hmem⟩ := hp.got hs hlog
  have hids : composable (Reference.lookedUp catalog call) = if composes p.2 then [p.1] else [] := by
    rw [hfound, composable_cons]
    rfl
  exact {
    sound := hs
    reply := fun reply h => (congrArg Reply.one hshader).trans (hreply reply h)
    gain := .lookups hcall (hids ▸ hgrows) fun e he =>
      List.mem_map.mpr ⟨_, hmem e (mem_entries_one he), rfl⟩ }

/-- A request that looks nothing up. -/
theorem served_of_nothing {call : Call} {reply : Reply ShaderEntry} (hs : Sound r s)
    (hfound : Reference.lookedUp catalog call = []) (hcall : ∀ c, call ≠ .custom c) (hentries : reply.entries = [])
    (hreply : ∀ said, Reference.reply? catalog r.strict call = some said → reply.map ShaderEntry.shader = said) :
    Served r catalog ⟨⟨call, time⟩, s, reply, s⟩ where
  sound := hs
  reply := hreply
  gain := by
    have hgrows : Grows r time (composable (Reference.lookedUp catalog call)) [] s s := hfound ▸ grows_refl r time s
    exact .lookups hcall hgrows fun e he => by rw [hentries] at he; cases he

theorem serve_byId (h : Holds r catalog) (hs : Sound r s) (id : Value)
    (hlog : r.Logs (r.shaderById time id s).1) : Served r catalog (r.turn ⟨.byId id, time⟩ s) := by
  cases hkey : id.isKey with
  | true =>
    obtain ⟨p, hp, hfetches⟩ := shaderById_eq h time s hkey
    have hfound : Reference.lookedUp catalog (.byId id) = [p] := by rw [Reference.lookedUp, hkey, hp]; rfl
    refine hfetches.served hs hlog hfound (fun _ h => nomatch h) ?_
    rintro reply ⟨⟩
    rw [hp, hkey]
    rfl
  | false =>
    have heq : r.shaderById time id s = (.error .wrongKind, s) := if_neg (by simp [hkey])
    have hturn : r.turn ⟨.byId id, time⟩ s = ⟨⟨.byId id, time⟩, s, .one (.error .wrongKind), s⟩ := by
      show Turn.mk _ s (.one (r.shaderById time id s).1) (r.shaderById time id s).2 = _
      rw [heq]
    rw [hturn]
    refine served_of_nothing hs (by rw [Reference.lookedUp, hkey]; rfl) (fun _ h => nomatch h) rfl ?_
    rintro reply ⟨⟩
    rw [hkey]
    rfl

theorem serve_byName (h : Holds r catalog) (hs : Sound r s) (name : Value)
    (hlog : r.Logs (r.shaderByName time name s).1) : Served r catalog (r.turn ⟨.byName name, time⟩ s) := by
  obtain ⟨p, hp, hfetches⟩ := shaderByName_eq h time s name
  have hfound : Reference.lookedUp catalog (.byName name) = [p] := by rw [Reference.lookedUp, hp]; rfl
  refine hfetches.served hs hlog hfound (fun _ h => nomatch h) ?_
  rintro reply ⟨⟩
  rw [hp]
  rfl

theorem serve_all (h : Holds r catalog) (hs : Sound r s) (hlog : r.Logs (r.allShaders time s).1) :
    Served r catalog (r.turn ⟨.all, time⟩ s) := by
  obtain ⟨hshaders, ⟨kept, hgrows⟩, hcached⟩ := allShaders_spec h hs hlog
  refine ⟨hs, ?_, .lookups (fun _ h => nomatch h) hgrows fun e he => ?_⟩
  · rintro reply ⟨⟩
    exact congrArg Reply.many hshaders
  · obtain ⟨l, hl, he⟩ := mem_entries_many he
    exact hcached l hl e he

theorem serve_custom (hs : Sound r s) (c : ShaderConfig) (hlog : r.Logs (r.customShader time c s).1) :
    Served r catalog (r.turn ⟨.custom c, time⟩ s) := by
  obtain ⟨hshader, hgain⟩ := customShader_spec catalog hlog
  refine ⟨hs, ?_, hgain⟩
  rintro reply ⟨⟩
  exact congrArg Reply.one hshader

/-- A request is replied to as the reference replies, and leaves what it says. -/
theorem serve_spec (h : Holds r catalog) (q : Request) (hs : Sound r s) (hwrote : r.Wrote (r.serve q s).1) :
    Served r catalog (r.turn q s) := by
  obtain ⟨call, time⟩ := q
  cases call with
  | byId id => exact serve_byId h hs id (wrote_one.mp hwrote)
  | byName name => exact serve_byName h hs name (wrote_one.mp hwrote)
  | all => exact serve_all h hs (wrote_many.mp hwrote)
  | config id =>
    refine served_of_nothing hs rfl (fun _ h => nomatch h) rfl ?_
    rintro reply ⟨⟩
    exact congrArg Reply.config (config_eq h id)
  | cachedIds => exact served_of_nothing hs rfl (fun _ h => nomatch h) rfl fun _ h => nomatch h
  | custom c => exact serve_custom hs c (wrote_one.mp hwrote)

end ShaderLoom.Registry
