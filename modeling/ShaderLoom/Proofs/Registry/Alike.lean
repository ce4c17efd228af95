/-
  ShaderLoom.Proofs.Registry.Alike — sessions that no later request tells apart.

  What comes after a session is a row of events: requests, and others changing the files in between.
  Two sessions are `Alike` when they keep the same shaders under the same ids, asked for alike, and the
  log can be opened on both or on neither, for the same fault. Notes, counts and what the files hold may
  differ. Every request is replied to the same on both and leaves them alike (`serve_alike`), so all later
  replies are the same (`heard_alike`); and what held between their files, as far as the log does not
  undo it, goes on to hold (`left_alike`). Making a shader leaves a session like itself, whether it goes
  through or not (`alike_generate`).
-/

import ShaderLoom.Proofs.Registry.Making

namespace ShaderLoom

/-! ## What comes later -/

inductive Event where
  | request (q : Request)
  /-- Others leave the files so. -/
  | elsewhere (files : Files)

namespace Registry

/-- What is replied to the requests among events. -/
def heard (r : Registry) : List Event → Session → List (Reply Shader)
  | [], _ => []
  | .request q :: rest, s => (r.serve q s).1.map ShaderEntry.shader :: heard r rest (r.serve q s).2
  | .elsewhere files :: rest, s => heard r rest { s with files }

/-- The session that events leave. -/
def left (r : Registry) : List Event → Session → Session
  | [], s => s
  | .request q :: rest, s => left r rest (r.serve q s).2
  | .elsewhere files :: rest, s => left r rest { s with files }

variable {r : Registry} {s s' t t' : Session} {time : String} {c : ShaderConfig} {cached : Bool} {fault : Fault}
  {id : Int}

/-! ## Writing the log -/

/-- Whether the log can be opened, or why not, is the same on two trees of files. -/
def OpensAlike (r : Registry) (files files' : Files) : Prop :=
  ∀ path, r.logPath = some path → ∀ text,
    (files.append (Journal.pathOr path) text).1 = (files'.append (Journal.pathOr path) text).1

theorem OpensAlike.write_eq {files files' : Files} (h : OpensAlike r files files') (record : Entries Value) :
    (r.write record files).1 = (r.write record files').1 := by
  unfold write
  cases hpath : r.logPath with
  | none => rfl
  | some path => simp only [Journal.writeRecord_eq, h path hpath]

/-- Writing the log does not change whether it can be opened. -/
theorem opensAlike_write (r : Registry) (record : Entries Value) (files : Files) :
    OpensAlike r (r.write record files).2 files := by
  intro path hpath text
  simp only [write, hpath, Journal.writeRecord_eq]
  exact Files.append_again _ _ text files

/-- What holds between two trees of files goes on to when the same is logged on both. -/
def Lasts (r : Registry) (R : Files → Files → Prop) : Prop :=
  ∀ record files files', OpensAlike r files files' → R files files' →
    R (r.write record files).2 (r.write record files').2

theorem lasts_contents (r : Registry) : Lasts r fun files files' => files.contents = files'.contents := by
  intro record files files' hopens hcontents
  unfold write
  cases hpath : r.logPath with
  | none => exact hcontents
  | some path => simp only [Journal.writeRecord_eq, Files.append_contents, hopens path hpath, hcontents]

theorem lasts_texts (r : Registry) : Lasts r fun files files' => ∀ p, files.textAt p = files'.textAt p := by
  intro record files files' hopens htexts p
  unfold write
  cases hpath : r.logPath with
  | none => exact htexts p
  | some path => simp only [Journal.writeRecord_eq, Journal.textAt_append, hopens path hpath, htexts]

/-! ## Alike -/

/-- What is kept under an id, without the serial. -/
def keptShader (p : Int × ShaderEntry) : Int × Shader := (p.1, p.2.shader)

structure Alike (r : Registry) (s t : Session) : Prop where
  cache : s.cache.map keptShader = t.cache.map keptShader
  asked : s.asked = t.asked
  log : OpensAlike r s.files t.files

theorem alike_refl (r : Registry) (s : Session) : Alike r s s := ⟨rfl, rfl, fun _ _ _ => rfl⟩

theorem Alike.trans {u : Session} (h : Alike r s t) (h' : Alike r t u) : Alike r s u where
  cache := h.cache.trans h'.cache
  asked := h.asked.trans h'.asked
  log := fun path hpath text => (h.log path hpath text).trans (h'.log path hpath text)

theorem alike_note (r : Registry) (shown : List Value) (text : String) (s : Session) : Alike r (note shown text s) s := by
  rw [note_eq]
  exact ⟨rfl, rfl, fun _ _ _ => rfl⟩

theorem Alike.note (h : Alike r s t) (shown : List Value) (text : String) :
    Alike r (note shown text s) (note shown text t) := by
  rw [note_eq, note_eq]
  exact ⟨h.cache, h.asked, h.log⟩

theorem Alike.ids (h : Alike r s t) : s.cache.map (·.1) = t.cache.map (·.1) := by
  have hids := congrArg (List.map Prod.fst) h.cache
  rwa [List.map_map, List.map_map] at hids

theorem Alike.cachedIds_eq (h : Alike r s t) : cachedIds s = cachedIds t := by rw [cachedIds, cachedIds, h.ids]

theorem Alike.cachedAs_eq (h : Alike r s t) : cachedAs s = cachedAs t := by
  rw [cachedAs, cachedAs, h.cachedIds_eq, h.asked]

theorem lookup_keptShader (id : Int) (cache : List (Int × ShaderEntry)) :
    lookup id (cache.map keptShader) = (lookup id cache).map ShaderEntry.shader := by
  rw [lookup, lookup, List.find?_map, Option.map_map, Option.map_map]
  rfl

theorem Alike.lookup_eq (h : Alike r s t) (id : Int) :
    (lookup id s.cache).map ShaderEntry.shader = (lookup id t.cache).map ShaderEntry.shader := by
  rw [← lookup_keptShader, ← lookup_keptShader, h.cache]

/-- Two answers given on two sessions: one reply, the sessions left alike, and between the files what was
between them. -/
structure AlikeAnswers {α β : Type} (r : Registry) (shown : α → β) (s t : Session) (a b : α × Session) : Prop where
  reply : shown a.1 = shown b.1
  after : Alike r a.2 b.2
  files : ∀ R, Lasts r R → R s.files t.files → R a.2.files b.2.files

def shownOne : Except Fault ShaderEntry → Except Fault Shader := Except.map ShaderEntry.shader

def shownMany : Except Fault (List ShaderEntry) → Except Fault (List Shader) := Except.map (List.map ShaderEntry.shader)

/-- Results that show the same are both shaders, the same but for the serial, or one fault. -/
theorem shownOne_eq {x y : Except Fault ShaderEntry} (h : shownOne x = shownOne y) :
    (∃ e e', x = .ok e ∧ y = .ok e' ∧ e.shader = e'.shader) ∨ ∃ fault, x = .error fault ∧ y = .error fault := by
  cases x with
  | error fault =>
    cases y with
    | error fault' => exact Or.inr ⟨fault, rfl, (Except.error.inj h) ▸ rfl⟩
    | ok e' => cases h
  | ok e =>
    cases y with
    | error fault' => cases h
    | ok e' => exact Or.inl ⟨e, e', rfl, rfl, Except.ok.inj h⟩

theorem generate_alike (h : Alike r s t) (time : String) (c : ShaderConfig) (cached : Bool) :
    AlikeAnswers r shownOne s t (r.generate time c cached s) (r.generate time c cached t) := by
  cases hc : Program.compose c with
  | error fault =>
    rw [generate_of_error hc, generate_of_error hc]
    exact ⟨rfl, ⟨h.cache, h.asked, h.log⟩, fun _ _ hfiles => hfiles⟩
  | ok source =>
    rw [generate_of_ok hc, generate_of_ok hc]
    refine ⟨?_, ⟨h.cache, h.asked, fun path hpath text => ?_⟩, fun R hlasts hfiles => hlasts _ _ _ h.log hfiles⟩
    · show Except.map _ (Except.map _ _) = Except.map _ (Except.map _ _)
      rw [h.log.write_eq]
      cases (r.write (recordOf c source cached time) t.files).1 <;> rfl
    · exact (opensAlike_write r _ s.files path hpath text).trans
        ((h.log path hpath text).trans (opensAlike_write r _ t.files path hpath text).symm)

/-- Making a shader changes nothing that shows later. -/
theorem alike_generate (r : Registry) (time : String) (c : ShaderConfig) (cached : Bool) (s : Session) :
    Alike r (r.generate time c cached s).2 s := by
  cases hc : Program.compose c with
  | error fault =>
    rw [generate_of_error hc]
    exact ⟨rfl, rfl, fun _ _ _ => rfl⟩
  | ok source =>
    rw [generate_of_ok hc]
    exact ⟨rfl, rfl, opensAlike_write r _ s.files⟩

theorem keep_alike {a b : Except Fault ShaderEntry × Session} (h : AlikeAnswers r shownOne s t a b) (id : Int)
    (asked : Value) : AlikeAnswers r shownOne s t (keep id asked a) (keep id asked b) := by
  obtain ⟨x, s'⟩ := a
  obtain ⟨y, t'⟩ := b
  obtain ⟨hreply, hafter, hfiles⟩ := h
  rcases shownOne_eq hreply with ⟨e, e', rfl, rfl, hshader⟩ | ⟨fault, rfl, rfl⟩
  · refine ⟨congrArg Except.ok hshader, ⟨?_, ?_, hafter.log⟩, hfiles⟩
    · have hkept : keptShader (id, e) = keptShader (id, e') := congrArg (Prod.mk id) hshader
      show (s'.cache ++ [(id, e)]).map keptShader = (t'.cache ++ [(id, e')]).map keptShader
      rw [List.map_append, List.map_append, hafter.cache, List.map_singleton, List.map_singleton, hkept]
    · exact congrArg (· ++ [(id, asked)]) hafter.asked
  · exact ⟨rfl, hafter, hfiles⟩

theorem fetch_alike (h : Alike r s t) (time : String) (id : Int) (asked : Value) :
    AlikeAnswers r shownOne s t (r.fetch time id asked s) (r.fetch time id asked t) := by
  have hkept := h.lookup_eq id
  cases hs : lookup id s.cache with
  | some e =>
    rw [hs] at hkept
    obtain ⟨e', ht, hshader⟩ := Option.map_eq_some_iff.mp hkept.symm
    rw [fetch_of_cached hs, fetch_of_cached ht]
    exact ⟨congrArg Except.ok hshader.symm, h, fun _ _ hfiles => hfiles⟩
  | none =>
    rw [hs] at hkept
    have ht : lookup id t.cache = none := Option.map_eq_none_iff.mp hkept.symm
    cases hc : lookup id r.presets with
    | none =>
      rw [fetch_of_unknown hs hc, fetch_of_unknown ht hc]
      exact ⟨rfl, h, fun _ _ hfiles => hfiles⟩
    | some c =>
      rw [fetch_of_new hs hc, fetch_of_new ht hc]
      exact keep_alike (generate_alike h time c true) id asked

theorem fetchAll_alike (h : Alike r s t) (time : String) (ids : List Int) :
    AlikeAnswers r shownMany s t (r.fetchAll time ids s) (r.fetchAll time ids t) := by
  induction ids generalizing s t with
  | nil => exact ⟨rfl, h, fun _ _ hfiles => hfiles⟩
  | cons id rest ih =>
    obtain ⟨hreply, hafter, hfiles⟩ := fetch_alike h time id (.int id)
    rw [fetchAll, fetchAll]
    rcases hx : r.fetch time id (.int id) s with ⟨x, s'⟩
    rcases hy : r.fetch time id (.int id) t with ⟨y, t'⟩
    rw [hx, hy] at hreply hafter hfiles
    rcases shownOne_eq hreply with ⟨e, e', rfl, rfl, hshader⟩ | ⟨fault, rfl, rfl⟩
    · obtain ⟨hreplies, hafter', hfiles'⟩ := ih hafter
      dsimp only
      rcases hx' : r.fetchAll time rest s' with ⟨fault | l, s''⟩ <;>
        rcases hy' : r.fetchAll time rest t' with ⟨fault' | l', t''⟩ <;>
        simp only [hx', hy'] at hreplies hafter' hfiles' ⊢
      · refine ⟨?_, hafter', fun R hlasts h => hfiles' R hlasts (hfiles R hlasts h)⟩
        exact congrArg Except.error (Except.error.inj hreplies)
      · cases hreplies
      · cases hreplies
      · refine ⟨?_, hafter', fun R hlasts h => hfiles' R hlasts (hfiles R hlasts h)⟩
        have hl : l.map ShaderEntry.shader = l'.map ShaderEntry.shader := Except.ok.inj hreplies
        show Except.ok (e.shader :: l.map _) = Except.ok (e'.shader :: l'.map _)
        rw [hshader, hl]
    · exact ⟨rfl, hafter, hfiles⟩

/-- Notes tell nothing. -/
theorem fallback_alike (h : Alike r s t) (time : String) (shown : List Value) (text : String) : AlikeAnswers r shownOne s t
    (r.fallback time (note shown text s)) (r.fallback time (note shown text t)) := by
  obtain ⟨hreply, hafter, hfiles⟩ := fetch_alike (h.note shown text) time 0 (.int 0)
  refine ⟨hreply, hafter, fun R hlasts hfrom => hfiles R hlasts ?_⟩
  rwa [note_eq, note_eq]

theorem shaderById_alike (h : Alike r s t) (time : String) (id : Value) :
    AlikeAnswers r shownOne s t (r.shaderById time id s) (r.shaderById time id t) := by
  unfold shaderById
  split
  · split
    · exact fetch_alike h time _ id
    · exact fallback_alike h time _ _
  · exact ⟨rfl, h, fun _ _ hfiles => hfiles⟩

theorem shaderByName_alike (h : Alike r s t) (time : String) (name : Value) :
    AlikeAnswers r shownOne s t (r.shaderByName time name s) (r.shaderByName time name t) := by
  unfold shaderByName
  split
  · exact fetch_alike h time _ _
  · exact fallback_alike h time _ _

theorem customShader_alike (h : Alike r s t) (time : String) (c : ShaderConfig) :
    AlikeAnswers r shownOne s t (r.customShader time c s) (r.customShader time c t) := by
  cases hv : c.validate with
  | error fault =>
    rw [customShader_of_untold hv, customShader_of_untold hv]
    exact ⟨rfl, h, fun _ _ hfiles => hfiles⟩
  | ok verdict =>
    cases hok : verdict.ok with
    | true =>
      rw [customShader_of_valid hv hok, customShader_of_valid hv hok]
      exact generate_alike h time c false
    | false =>
      cases hstrict : r.strict with
      | true =>
        rw [customShader_of_refused hv hok hstrict, customShader_of_refused hv hok hstrict]
        exact ⟨rfl, h, fun _ _ hfiles => hfiles⟩
      | false =>
        rw [customShader_of_warned hv hok hstrict, customShader_of_warned hv hok hstrict]
        obtain ⟨hreply, hafter, hfiles⟩ := generate_alike (h.note _ _) time c false
        refine ⟨hreply, hafter, fun R hlasts hfrom => hfiles R hlasts ?_⟩
        rwa [note_eq, note_eq]

/-- A request cannot tell sessions apart. -/
theorem serve_alike (h : Alike r s t) (q : Request) :
    AlikeAnswers r (Reply.map ShaderEntry.shader) s t (r.serve q s) (r.serve q t) := by
  obtain ⟨call, time⟩ := q
  cases call with
  | byId id =>
    obtain ⟨hreply, hafter, hfiles⟩ := shaderById_alike h time id
    exact ⟨congrArg Reply.one hreply, hafter, hfiles⟩
  | byName name =>
    obtain ⟨hreply, hafter, hfiles⟩ := shaderByName_alike h time name
    exact ⟨congrArg Reply.one hreply, hafter, hfiles⟩
  | all =>
    obtain ⟨hreply, hafter, hfiles⟩ := fetchAll_alike h time (r.presets.map (·.1))
    exact ⟨congrArg Reply.many hreply, hafter, hfiles⟩
  | config id => exact ⟨rfl, h, fun _ _ hfiles => hfiles⟩
  | cachedIds => exact ⟨congrArg Reply.ids h.cachedIds_eq, h, fun _ _ hfiles => hfiles⟩
  | custom c =>
    obtain ⟨hreply, hafter, hfiles⟩ := customShader_alike h time c
    exact ⟨congrArg Reply.one hreply, hafter, hfiles⟩

/-! ## All that comes later -/

theorem heard_alike (h : Alike r s t) (events : List Event) : r.heard events s = r.heard events t := by
  induction events generalizing s t with
  | nil => rfl
  | cons event rest ih =>
    cases event with
    | request q =>
      obtain ⟨hreply, hafter, -⟩ := serve_alike h q
      rw [heard, heard, hreply, ih hafter]
    | elsewhere files => exact ih ⟨h.cache, h.asked, fun _ _ _ => rfl⟩

theorem left_alike {R : Files → Files → Prop} (h : Alike r s t) (hlasts : Lasts r R) (hsame : ∀ files, R files files)
    (hfiles : R s.files t.files) (events : List Event) : R (r.left events s).files (r.left events t).files := by
  induction events generalizing s t with
  | nil => exact hfiles
  | cons event rest ih =>
    cases event with
    | request q =>
      obtain ⟨-, hafter, hkept⟩ := serve_alike h q
      exact ih hafter (hkept R hlasts hfiles)
    | elsewhere files => exact ih ⟨h.cache, h.asked, fun _ _ _ => rfl⟩ (hsame files)

/-- What came to a session does not show: not in the ids kept, however they are told, and not in any
later reply. -/
structure Unnoticed (r : Registry) (s s' : Session) : Prop where
  cachedIds : cachedIds s' = cachedIds s
  cachedAs : cachedAs s' = cachedAs s
  later : ∀ events, r.heard events s' = r.heard events s

theorem Alike.unnoticed (h : Alike r s' s) : Unnoticed r s s' := ⟨h.cachedIds_eq, h.cachedAs_eq, heard_alike h⟩

end Registry

end ShaderLoom
