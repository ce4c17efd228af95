/-
  ShaderLoom.Proofs.Registry.Writable — logs that can be written.

  Composing a shader ends in few faults (`compose_composing`) and none of files (`compose_clear`); only
  the log does. A log that can be written at the start of a run can be written throughout, as each
  write leaves it writable; so where the records of all shaders can be written out, every one is
  (`logsAll_of_ready`).
-/

import ShaderLoom.Proofs.Program.Composed
import ShaderLoom.Proofs.Registry.Making

namespace ShaderLoom

open Outcome

/-! ## Faults of composing -/

/-- The faults that composing a shader ends with. -/
def Fault.isOfComposing : Fault → Bool
  | .wrongKind | .notANumber _ | .integerTooLarge | .unknownName _ _ | .unknownEffect _ | .tooManyDecimals _
  | .unprintable => true
  | _ => false

/-- A result whose fault, if it has one, is of composing. -/
def Composing {α : Type} (result : Except Fault α) : Prop := ∀ fault, result = .error fault → fault.isOfComposing = true

section Composing

variable {α β : Type}

theorem clear_ok (a : α) : ClearOfFiles (.ok a) := fun _ h => nomatch h

theorem clear_error {fault : Fault} (h : fault.isOfFiles = false) : ClearOfFiles (.error fault : Except Fault α) := by
  rintro _ ⟨⟩
  exact h

theorem composing_ok (a : α) : Composing (.ok a) := fun _ h => nomatch h

theorem composing_error {fault : Fault} (h : fault.isOfComposing = true) : Composing (.error fault : Except Fault α) := by
  rintro _ ⟨⟩
  exact h

theorem Composing.bind {x : Except Fault α} {f : α → Except Fault β} (hx : Composing x) (hf : ∀ a, Composing (f a)) :
    Composing (x >>= f) := by
  cases x with
  | error fault => exact composing_error (hx fault rfl)
  | ok a => exact hf a

theorem Composing.clear {result : Except Fault α} (h : Composing result) : ClearOfFiles result := by
  intro fault hfault
  have hof := h fault hfault
  cases fault <;> first | rfl | cases hof

end Composing

theorem Fault.told_of_composing {fault : Fault} (h : fault.isOfComposing = true) : fault.told.isOfComposing = true := by
  rcases told_cases fault with ⟨htold, -⟩ | ⟨htold, -⟩
  · rwa [htold]
  · rw [htold]
    rfl

theorem Value.checkPrintable_composing (v : Value) : Composing v.checkPrintable := by
  unfold checkPrintable
  split
  · exact composing_ok _
  · exact composing_error rfl

theorem Value.named_composing {α : Type} {find? : String → Option α} {unknown : Value → Fault}
    (h : ∀ v, (unknown v).isOfComposing = true) (v : Value) : Composing (v.named find? unknown) := by
  unfold named
  split
  · rename_i s
    cases find? s with
    | none => exact composing_error (Fault.told_of_composing (h _))
    | some a => exact composing_ok a
  · exact composing_error (Fault.told_of_composing (h _))

theorem Value.toNumber_composing (v : Value) : Composing v.toNumber := by
  cases v with
  | bool | float => exact composing_ok _
  | int n =>
    rw [toNumber]
    cases Binary64.ofInt? n with
    | none => exact composing_error rfl
    | some x => exact composing_ok x
  | str s =>
    rw [toNumber]
    cases Reading.number? s.toList with
    | none => exact composing_error rfl
    | some x => exact composing_ok x
  | null | list | map => exact composing_error rfl

theorem Literal.checkDecimals_composing (decimals : Option Int) : Composing (checkDecimals decimals) := by
  unfold checkDecimals
  split
  · split
    · exact composing_ok _
    · exact composing_error (Fault.told_of_composing rfl)
  · exact composing_ok _

theorem Literal.ofValue_composing (v : Value) (decimals : Option Int) : Composing (Literal.ofValue v decimals) :=
  v.toNumber_composing.bind fun _ => (checkDecimals_composing decimals).bind fun _ => composing_ok _

theorem EffectKind.ofValue_composing (v : Value) : Composing (EffectKind.ofValue v) := v.named_composing fun _ => rfl

theorem NoiseKind.ofValue_composing (v : Value) : Composing (NoiseKind.ofValue v) := v.named_composing fun _ => rfl

theorem Vignette.source_composing (v : Vignette) : Composing v.source :=
  (Literal.ofValue_composing _ _).bind fun _ => (Literal.ofValue_composing _ _).bind fun _ =>
    (Literal.ofValue_composing _ _).bind fun _ => (Literal.ofValue_composing _ _).bind fun _ => composing_ok _

namespace Program

theorem timeStatement_composing (t : Timing) : Composing (timeStatement t) := by
  refine (Literal.ofValue_composing _ _).bind fun scale => ?_
  split
  · exact ((Literal.ofValue_composing _ _).bind fun _ => composing_ok _).bind fun _ => composing_ok _
  · exact (composing_ok "").bind fun _ => composing_ok _

theorem patternScale_composing (params : Entries Value) : Composing (patternScale params) := by
  unfold patternScale
  split
  · exact (Literal.ofValue_composing _ _).bind fun _ => composing_ok _
  · exact (Literal.ofValue_composing _ _).bind fun _ => composing_ok _
  · exact composing_ok _

theorem compose_composing (c : ShaderConfig) : Composing (compose c) := by
  have hentry : ∀ e, Composing (entryPoint c e) := fun e =>
    (timeStatement_composing c.time).bind fun _ => (patternScale_composing c.effectParams).bind fun _ =>
      c.resolvedVignette.source_composing.bind fun _ => composing_ok _
  have hparts : Composing (parts c) :=
    (EffectKind.ofValue_composing c.effect).bind fun _ => c.name.checkPrintable_composing.bind fun _ =>
      (NoiseKind.ofValue_composing c.noise).bind fun _ => (hentry _).bind fun _ => composing_ok _
  exact hparts.bind fun _ => composing_ok _

theorem compose_clear (c : ShaderConfig) : ClearOfFiles (compose c) := (compose_composing c).clear

end Program

/-! ## Keeping the log writable -/

namespace Registry

variable {r : Registry} {s : Session} {c : ShaderConfig}

/-- There is no log or it can be written. -/
def Ready (r : Registry) (s : Session) : Prop := ∀ path, r.logPath = some path → s.files.Writable (Journal.pathOr path)

/-- A configuration whose shader, if it can be composed, has a record that can be written out: the id can
be, and so can the length of the source. -/
def Fits (c : ShaderConfig) : Prop := ∀ source, Program.compose c = .ok source →
  c.id.isPrintable = true ∧ source.length < 10 ^ mostDigits

/-- An answer that is no fault of files and leaves the log as it should be. -/
structure Safe {α : Type} (r : Registry) (answer : Except Fault α × Session) : Prop where
  clear : ClearOfFiles answer.1
  ready : Ready r answer.2

theorem recordOf_printable {source : String} (h : Fits c) (hc : Program.compose c = .ok source) (cached : Bool)
    (time : String) : (Value.map (recordOf c source cached time)).isPrintable = true := by
  obtain ⟨hid, hlength⟩ := h source hc
  obtain ⟨-, -, -, -, hname, -⟩ := Program.compose_eq_ok_iff.mp hc
  have hlength : (Value.int source.length).isPrintable = true := Value.isPrintable_int_iff.mpr hlength
  show (Value.map (Journal.stamped (record c source cached) time)).isPrintable = true
  rw [Journal.stamped_printable_iff, Value.isPrintable_map_iff]
  simp only [record, List.forall_mem_cons, List.not_mem_nil, false_implies, implies_true, and_true]
  exact ⟨hid, hname, rfl, rfl, rfl, hlength, rfl⟩

theorem write_of_ready (h : Ready r s) {record : Entries Value} (hrecord : (Value.map record).isPrintable = true) :
    (r.write record s.files).1 = .ok () ∧
      ∀ path, r.logPath = some path → (r.write record s.files).2.Writable (Journal.pathOr path) := by
  unfold write
  cases hpath : r.logPath with
  | none => exact ⟨rfl, fun path h => nomatch h⟩
  | some path =>
    obtain ⟨files, happend⟩ := h path hpath (Journal.recordLine (.map record))
    dsimp only
    rw [Journal.writeRecord_of_printable hrecord, happend]
    refine ⟨rfl, fun path' hpath' => ?_⟩
    cases hpath'
    exact (Files.writable_of_append happend).2

theorem ready_note (h : Ready r s) (shown : List Value) (text : String) : Ready r (note shown text s) := by
  rw [note_eq]
  exact h

theorem generate_safe (h : Ready r s) (hc : Fits c) (time : String) (cached : Bool) :
    Safe r (r.generate time c cached s) := by
  cases hmade : Program.compose c with
  | error fault =>
    rw [generate_of_error hmade]
    exact ⟨clear_error (Program.compose_clear c fault hmade), h⟩
  | ok source =>
    rw [generate_of_ok hmade]
    obtain ⟨hwrite, hready⟩ := write_of_ready h (recordOf_printable hc hmade cached time)
    refine ⟨?_, hready⟩
    rw [hwrite]
    exact clear_ok _

theorem keep_safe {answer : Except Fault ShaderEntry × Session} (h : Safe r answer) (id : Int) (asked : Value) :
    Safe r (keep id asked answer) := by
  obtain ⟨fault | e, s'⟩ := answer
  · exact h
  · exact ⟨clear_ok e, h.ready⟩

section Presets

variable (hpresets : ∀ p ∈ r.presets, Fits p.2)
include hpresets

theorem fetch_safe (h : Ready r s) (time : String) (id : Int) (asked : Value) : Safe r (r.fetch time id asked s) := by
  have hfetching := fetch_fetching r time id asked s
  generalize r.fetch time id asked s = answer at hfetching ⊢
  cases hfetching with
  | cached => exact ⟨clear_ok _, h⟩
  | unknown => exact ⟨clear_error rfl, h⟩
  | new _ hc => exact keep_safe (generate_safe h (hpresets _ (mem_of_lookup hc)) time true) id asked

theorem shaderById_safe (h : Ready r s) (time : String) (id : Value) : Safe r (r.shaderById time id s) := by
  unfold shaderById
  split
  · split
    · exact fetch_safe hpresets h time _ _
    · exact fetch_safe hpresets (ready_note h _ _) time 0 (.int 0)
  · exact ⟨clear_error rfl, h⟩

theorem shaderByName_safe (h : Ready r s) (time : String) (name : Value) : Safe r (r.shaderByName time name s) := by
  unfold shaderByName
  split
  · exact fetch_safe hpresets h time _ _
  · exact fetch_safe hpresets (ready_note h _ _) time 0 (.int 0)

theorem fetchAll_safe (h : Ready r s) (time : String) (ids : List Int) : Safe r (r.fetchAll time ids s) := by
  induction ids generalizing s with
  | nil => exact ⟨clear_ok [], h⟩
  | cons id rest ih =>
    rw [fetchAll]
    obtain ⟨hclear, hready⟩ := fetch_safe hpresets h time id (.int id)
    rcases hx : r.fetch time id (.int id) s with ⟨fault | e, s'⟩ <;> rw [hx] at hclear hready
    · exact ⟨clear_error (hclear fault rfl), hready⟩
    · obtain ⟨hclear', hready'⟩ := ih hready
      rcases hy : r.fetchAll time rest s' with ⟨fault | l, s''⟩ <;> simp only [hy] at hclear' hready' ⊢
      · exact ⟨clear_error (hclear' fault rfl), hready'⟩
      · exact ⟨clear_ok _, hready'⟩

end Presets

theorem validate_clear (c : ShaderConfig) : ClearOfFiles c.validate := by
  have hvalidate : Composing c.validate :=
    c.noise.checkPrintable_composing.bind fun _ => c.effect.checkPrintable_composing.bind fun _ => by
      rcases validate_cases c.toValue with ⟨h, -⟩ | ⟨h, -⟩ <;> rw [h]
      · exact composing_ok _
      · exact composing_error rfl
  exact hvalidate.clear

theorem customShader_safe (h : Ready r s) (hc : Fits c) (time : String) : Safe r (r.customShader time c s) := by
  have hcustomizing := customShader_customizing r time c s
  generalize r.customShader time c s = answer at hcustomizing ⊢
  cases hcustomizing with
  | @untold fault hfault => exact ⟨clear_error (validate_clear c fault hfault), h⟩
  | valid => exact generate_safe h hc time false
  | refused => exact ⟨clear_error rfl, h⟩
  | warned => exact generate_safe (ready_note h _ _) hc time false

theorem config_clear (r : Registry) (id : Value) : ClearOfFiles (r.config id) := by
  unfold config
  split
  · exact clear_ok _
  · exact clear_error rfl

theorem serve_safe (h : Ready r s) (q : Request) (hpresets : ∀ p ∈ r.presets, Fits p.2)
    (hcustom : ∀ c, q.call = .custom c → Fits c) : r.Wrote (r.serve q s).1 ∧ Ready r (r.serve q s).2 := by
  obtain ⟨call, time⟩ := q
  cases call with
  | byId id =>
    obtain ⟨hclear, hready⟩ := shaderById_safe hpresets h time id
    exact ⟨wrote_one.mpr (Or.inr hclear), hready⟩
  | byName name =>
    obtain ⟨hclear, hready⟩ := shaderByName_safe hpresets h time name
    exact ⟨wrote_one.mpr (Or.inr hclear), hready⟩
  | all =>
    obtain ⟨hclear, hready⟩ := fetchAll_safe hpresets h time (r.presets.map (·.1))
    exact ⟨wrote_many.mpr (Or.inr hclear), hready⟩
  | config id => exact ⟨wrote_config.mpr (Or.inr (config_clear r id)), h⟩
  | cachedIds => exact ⟨Or.inr fun _ h => (nomatch h), h⟩
  | custom c =>
    obtain ⟨hclear, hready⟩ := customShader_safe h (hcustom c rfl) time
    exact ⟨wrote_one.mpr (Or.inr hclear), hready⟩

/-- A log that can be written at the start is written throughout. -/
theorem logsAll_of_ready {requests : List Request} (h : Ready r s) (hpresets : ∀ p ∈ r.presets, Fits p.2)
    (hcustoms : ∀ q ∈ requests, ∀ c, q.call = .custom c → Fits c) : r.LogsAll requests s := by
  induction requests generalizing s with
  | nil => exact fun t h => nomatch h
  | cons q rest ih =>
    obtain ⟨hcustom, hrest⟩ := List.forall_mem_cons.mp hcustoms
    obtain ⟨hwrote, hready⟩ := serve_safe h q hpresets hcustom
    exact List.forall_mem_cons.mpr ⟨hwrote, ih hready hrest⟩

end Registry

end ShaderLoom
