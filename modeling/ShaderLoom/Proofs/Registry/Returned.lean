/-
  ShaderLoom.Proofs.Registry.Returned — the log of a run as the reader returns it.

  A record tells the shader that it is for by seven of its entries (`Item.Tells`). They outlast being
  written as a line and read, in which only keys change their order (`Item.Tells.reordered`); so a log that
  has got the lines of some items reads back as what it held before and then a record of each of them
  (`Lengthened.readBack`).
-/

import ShaderLoom.Proofs.Registry.Served

namespace ShaderLoom

/-! ## What a record tells -/

/-- What a record says of the shader it is for. The id and the name are held to those of the
configuration, which may be anything. -/
structure Item.Tells (i : Item) (same : Value → Value → Prop) (record : Entries Value) : Prop where
  id : ∃ id, Entries.get? "id" record = some id ∧ same i.entry.config.id id
  name : ∃ name, Entries.get? "name" record = some name ∧ same i.entry.config.name name
  effect : Entries.get? "effect" record = some (.str i.entry.config.effectTag)
  noise : Entries.get? "noise" record = some (.str i.entry.config.noiseTag)
  cached : Entries.get? "cached" record = some (.bool i.cached)
  length : Entries.get? "length" record = some (.int i.entry.source.length)
  sha1 : Entries.get? "sha1" record = some (.str (Digest.sha1 i.entry.source))

/-- A record that the reader returned for an item: the one that was written, in whatever order of keys. -/
structure Item.Returned (i : Item) (v : Value) : Prop where
  reordered : (Value.map i.record).Reordered v
  tells : ∃ record, v = .map record ∧ i.Tells Value.Reordered record

namespace Item

variable {i : Item} {record : Entries Value} {v : Value}

/-- Stamping leaves what a record tells. -/
theorem tells (i : Item) : i.Tells (· = ·) i.record where
  id := ⟨_, rfl, rfl⟩
  name := ⟨_, rfl, rfl⟩
  effect := rfl
  noise := rfl
  cached := rfl
  length := rfl
  sha1 := rfl

theorem Tells.reordered (h : i.Tells (· = ·) record) (hkeys : (Entries.keys record).Nodup)
    (hv : (Value.map record).Reordered v) : ∃ found, v = .map found ∧ i.Tells Value.Reordered found := by
  obtain ⟨found, rfl, hfound⟩ := hv.of_map hkeys
  have hscalar : ∀ {key : String} {w : Value}, w.isKey = true → Entries.get? key record = some w →
      Entries.get? key found = some w := by
    intro key w hkey hw
    obtain ⟨w', hw', hsame⟩ := hfound key w hw
    exact hsame.eq_of_isKey hkey ▸ hw'
  obtain ⟨id, hid, hid'⟩ := h.id
  obtain ⟨name, hname, hname'⟩ := h.name
  subst hid' hname'
  exact ⟨found, rfl, {
    id := hfound _ _ hid
    name := hfound _ _ hname
    effect := hscalar rfl h.effect
    noise := hscalar rfl h.noise
    cached := hscalar rfl h.cached
    length := hscalar rfl h.length
    sha1 := hscalar rfl h.sha1 }⟩

/-- An item whose record has every key once: only the id and the name may hold keys of their own. -/
structure Keyed (i : Item) : Prop where
  id : i.entry.config.id.isKeyed = true
  name : i.entry.config.name.isKeyed = true

theorem Keyed.isKeyed (h : i.Keyed) : (Value.map i.record).isKeyed = true := by
  have hkeys : ["id", "name", "effect", "noise", "cached", "length", "sha1"].Nodup := by decide
  refine Journal.stamped_keyed i.time (Value.isKeyed_map.mpr ⟨hkeys, ?_⟩)
  simp only [Registry.record, List.forall_mem_cons, List.not_mem_nil, false_implies, implies_true, and_true]
  exact ⟨h.id, h.name, rfl, rfl, rfl, rfl, rfl⟩

theorem Keyed.returned (h : i.Keyed) : i.Returned (Value.map i.record).sortKeys where
  reordered := Value.reordered_sortKeys _
  tells := i.tells.reordered (Value.isKeyed_map.mp h.isKeyed).1 (Value.reordered_sortKeys _)

end Item

namespace Registry

/-! ## Reading the log -/

variable {path : String} {items : List Item} {files files' : Files} {earlier : List Value}

/-- A log that held the lines of records and got those of some items reads back as the records and then
one for each item, if there is such a file at all. -/
theorem Lengthened.readBack (h : Lengthened path items files files') (hitems : ∀ i ∈ items, i.Keyed)
    (hearlier : ∀ v ∈ earlier, v.isKeyed = true ∧ v.isPrintable = true)
    (htext : files.textAt (logFile path) = String.join (earlier.map Journal.recordLine))
    (hany : items ≠ [] ∨ Files.Present (Journal.pathOr path) files) :
    ∃ before found, Journal.read path files' = ⟨before ++ found, none⟩ ∧
      List.Forall₂ Value.Reordered earlier before ∧ List.Forall₂ Item.Returned items found := by
  have hrecords : ∀ v ∈ earlier ++ items.map fun i => Value.map i.record, v.isKeyed = true ∧ v.isPrintable = true := by
    intro v hv
    rcases List.mem_append.mp hv with hv | hv
    · exact hearlier v hv
    · obtain ⟨i, hi, rfl⟩ := List.mem_map.mp hv
      exact ⟨(hitems i hi).isKeyed, h.printable i hi⟩
  have hlines : files'.textAt (logFile path) =
      String.join ((earlier ++ items.map fun i => Value.map i.record).map Journal.recordLine) := by
    rw [h.text, htext, List.map_append, String.join_append, List.map_map]
    rfl
  have hread := Journal.read_of_recordLines (h.present hany) hlines hrecords
  rw [List.map_append, List.map_map] at hread
  refine ⟨_, _, hread, Journal.forall₂_sortKeys earlier, List.forall₂_map_right_iff.mpr (List.forall₂_same.mpr ?_)⟩
  exact fun i hi => (hitems i hi).returned

end Registry

end ShaderLoom
