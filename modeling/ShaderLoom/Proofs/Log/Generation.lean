/-
  ShaderLoom.Proofs.Log.Generation — generation records, refused or appended whole.

  Records come to a file by calls, each for a path and each going through or not; a file holds just the
  lines of the records that reached it (`textAt_left`). A generation record that lacks a key is refused and
  the tree of files stays as it is. Any other is stamped behind its own entries (`stamped_eq`), so where the
  file can be written it comes to be one line more, and the file reads back as the records that reached it
  before and then the stamped one; unless a whole number in it is too long to be written out, and then the
  file is opened and keeps what it held (`writeGeneration_outcome`).
-/

import ShaderLoom.Proofs.Log.Journal

namespace ShaderLoom.Journal

open Files Json

variable {p : Path} {path key : String} {files start written : Files} {calls : List (String × Value)}
  {record : Entries Value} {value : Value}

/-! ## What calls leave -/

/-- The tree that calls leave, whether they went through or not. -/
def left : List (String × Value) → Files → Files
  | [], files => files
  | (path, record) :: rest, files => left rest (writeRecord path record files).2

/-- The records that calls put in a file: those of the calls for it that went through, in order. -/
def reached (p : Path) : List (String × Value) → Files → List Value
  | [], _ => []
  | (path, record) :: rest, files =>
    let (result, files) := writeRecord path record files
    if result.toBool ∧ Path.ofText path = p then record :: reached p rest files else reached p rest files

theorem textAt_of_contents {files' : Files} (h : files'.contents = files.contents) : files'.textAt p = files.textAt p := by
  rw [textAt, textAt, read?, read?, h]

/-- An append puts its text behind what the file held, or nothing anywhere. -/
theorem textAt_append (p : Path) (path text : String) (files : Files) :
    (files.append path text).2.textAt p =
      files.textAt p ++ if (files.append path text).1.toBool ∧ Path.ofText path = p then text else "" := by
  rcases happend : files.append path text with ⟨fault | ⟨⟨⟩⟩, files'⟩
  · have hcontents := append_contents path text files
    rw [happend] at hcontents
    rw [textAt_of_contents hcontents, if_neg (by simp [Except.toBool]), String.append_empty]
  · obtain ⟨htext, hother⟩ := append_ok happend
    by_cases hp : Path.ofText path = p
    · rw [if_pos ⟨rfl, hp⟩, ← hp, htext]
    · rw [if_neg fun h => hp h.2, String.append_empty, textAt, textAt, hother p (Ne.symm hp)]

theorem textAt_append_empty (p : Path) (path : String) (files : Files) :
    (files.append path "").2.textAt p = files.textAt p := by
  rw [textAt_append, ite_self, String.append_empty]

theorem toBool_writeRecord {v : Value} (h : v.isPrintable = false) (path : String) (files : Files) :
    (writeRecord path v files).1.toBool = false := by
  rw [writeRecord_of_unprintable h]
  cases (files.append path "").1 <;> rfl

/-- A call puts its line behind what the file held, or nothing anywhere. -/
theorem textAt_writeRecord (p : Path) (path : String) (v : Value) (files : Files) :
    (writeRecord path v files).2.textAt p =
      files.textAt p ++ if (writeRecord path v files).1.toBool ∧ Path.ofText path = p then recordLine v else "" := by
  cases hv : v.isPrintable with
  | true =>
    rw [writeRecord_of_printable hv]
    exact textAt_append p path (recordLine v) files
  | false =>
    rw [toBool_writeRecord hv, if_neg (by simp), String.append_empty, writeRecord_of_unprintable hv]
    exact textAt_append_empty p path files

theorem textAt_left (p : Path) (calls : List (String × Value)) (start : Files) :
    (left calls start).textAt p = start.textAt p ++ String.join ((reached p calls start).map recordLine) := by
  induction calls generalizing start with
  | nil => exact String.append_empty.symm
  | cons call rest ih =>
    obtain ⟨path, v⟩ := call
    rw [left, ih, textAt_writeRecord, reached]
    dsimp only
    split
    · rw [List.map_cons, String.join_cons, String.append_assoc]
    · rw [String.append_empty]

theorem mem_reached {v : Value} (h : v ∈ reached p calls start) :
    v.isPrintable = true ∧ ∃ call ∈ calls, call.2 = v := by
  induction calls generalizing start with
  | nil => cases h
  | cons call rest ih =>
    obtain ⟨path, w⟩ := call
    rw [reached] at h
    dsimp only at h
    split at h
    · rename_i hwritten
      rcases List.mem_cons.mp h with rfl | h
      · refine ⟨?_, _, List.mem_cons_self, rfl⟩
        cases hv : v.isPrintable with
        | true => rfl
        | false => cases (toBool_writeRecord hv path start).symm.trans hwritten.1
      · obtain ⟨hv, call, hcall, rfl⟩ := ih h
        exact ⟨hv, call, List.mem_cons_of_mem _ hcall, rfl⟩
    · obtain ⟨hv, call, hcall, rfl⟩ := ih h
      exact ⟨hv, call, List.mem_cons_of_mem _ hcall, rfl⟩

/-! ## Stamping -/

/-- An entry for a record that has none under its key. -/
def ownless (key : String) (value : Value) (record : Entries Value) : Entries Value :=
  if key ∈ Entries.keys record then [] else [(key, value)]

/-- What a record is stamped with. -/
def stamps (record : Entries Value) (time : String) : Entries Value :=
  ownless "generator" (.str generator) record ++ ownless "timestamp" (.str time) record

theorem putDefault_eq (key : String) (value : Value) (record : Entries Value) :
    putDefault key value record = record ++ ownless key value record := by
  rw [putDefault, ownless]
  by_cases h : key ∈ Entries.keys record
  · rw [if_pos (Entries.has_iff_mem_keys.mpr h), if_pos h, List.append_nil]
  · rw [if_neg fun hhas => h (Entries.has_iff_mem_keys.mp hhas), if_neg h, Entries.put_of_not_mem h]

/-- An entry under another key makes no difference. -/
theorem ownless_append {other : String} {w : Value} (h : other ≠ key) :
    ownless key value (record ++ ownless other w record) = ownless key value record := by
  have hkey : key ∈ Entries.keys (record ++ ownless other w record) ↔ key ∈ Entries.keys record := by
    rw [Entries.keys, List.map_append, List.mem_append, ownless]
    split <;> simp [Entries.keys, Ne.symm h]
  unfold ownless at hkey ⊢
  simp only [hkey]

theorem stamped_eq (record : Entries Value) (time : String) : stamped record time = record ++ stamps record time := by
  rw [stamped, putDefault_eq "generator", putDefault_eq, ownless_append (by decide), List.append_assoc, stamps]

theorem mem_ownless {entry : String × Value} (h : entry ∈ ownless key value record) :
    entry = (key, value) ∧ key ∉ Entries.keys record := by
  rw [ownless] at h
  split at h
  · cases h
  · exact ⟨List.mem_singleton.mp h, ‹_›⟩

theorem missingKeys_eq (record : Entries Value) :
    missingKeys record = requiredKeys.filter (· ∉ Entries.keys record) := by
  rw [missingKeys]
  congr 1
  funext key
  rw [Bool.eq_iff_iff, Bool.not_eq_true', Bool.eq_false_iff, Ne, Entries.has_iff_mem_keys, decide_eq_true_eq]

theorem nodup_keys_stamps (record : Entries Value) (time : String) : (Entries.keys (stamps record time)).Nodup := by
  unfold stamps ownless
  split <;> split <;> simp [Entries.keys]

/-- A stamp is text, under a key of its own. -/
theorem mem_stamps {entry : String × Value} {time : String} (h : entry ∈ stamps record time) :
    entry.1 ∉ Entries.keys record ∧ ∃ s, entry.2 = .str s := by
  rcases List.mem_append.mp h with h | h
  · obtain ⟨rfl, hfree⟩ := mem_ownless h
    exact ⟨hfree, _, rfl⟩
  · obtain ⟨rfl, hfree⟩ := mem_ownless h
    exact ⟨hfree, _, rfl⟩

theorem stamped_keyed (time : String) (h : (Value.map record).isKeyed = true) :
    (Value.map (stamped record time)).isKeyed = true := by
  obtain ⟨hnodup, hvalues⟩ := Value.isKeyed_map.mp h
  have hentries : ∀ entry ∈ record ++ stamps record time, entry.2.isKeyed = true := by
    intro entry hentry
    rcases List.mem_append.mp hentry with hentry | hentry
    · exact hvalues entry hentry
    · obtain ⟨-, s, hs⟩ := mem_stamps hentry
      rw [hs]
      rfl
  have honce : (Entries.keys (record ++ stamps record time)).Nodup := by
    rw [Entries.keys, List.map_append]
    refine List.nodup_append.mpr ⟨hnodup, nodup_keys_stamps record time, fun key hkey other hother heq => ?_⟩
    obtain ⟨entry, hentry, rfl⟩ := List.mem_map.mp hother
    exact (mem_stamps hentry).1 (heq ▸ hkey)
  rw [stamped_eq]
  exact Value.isKeyed_map.mpr ⟨honce, hentries⟩

/-- Stamps are text, so what can be written out can be with them. -/
theorem stamped_printable_iff (time : String) :
    (Value.map (stamped record time)).isPrintable = true ↔ (Value.map record).isPrintable = true := by
  rw [Value.isPrintable_map_iff, Value.isPrintable_map_iff, stamped_eq]
  constructor
  · exact fun h entry hentry => h entry (List.mem_append_left _ hentry)
  · intro h entry hentry
    rcases List.mem_append.mp hentry with hentry | hentry
    · exact h entry hentry
    · obtain ⟨-, s, hs⟩ := mem_stamps hentry
      rw [hs]
      rfl

/-! ## All or nothing -/

/-- A payload appended to the log at a path behind earlier records: one line more in its file and no other
file changed; and read back it is the last record, with its keys in whatever order. -/
structure Appended (path : String) (payload : Entries Value) (earlier : List Value) (files written : Files) : Prop where
  line : ∃ line : String, '\n' ∉ line.toList ∧
    written.textAt (Path.ofText (pathOr path)) = files.textAt (Path.ofText (pathOr path)) ++ (line ++ "\n")
  others : ∀ q ≠ Path.ofText (pathOr path), written.read? q = files.read? q
  readBack : ∃ found last, read path written = ⟨found ++ [last], none⟩ ∧
    List.Forall₂ Value.Reordered earlier found ∧ Value.Reordered (.map payload) last

/-- The log at a path opened behind earlier records and nothing written: its file is there, every file
holds what it held, and read back the log has the earlier records. -/
structure Opened (path : String) (earlier : List Value) (files opened : Files) : Prop where
  isFile : opened.isFile (Path.ofText (pathOr path)) = true
  texts : ∀ q, opened.textAt q = files.textAt q
  others : ∀ q ≠ Path.ofText (pathOr path), opened.read? q = files.read? q
  readBack : ∃ found, read path opened = ⟨found, none⟩ ∧ List.Forall₂ Value.Reordered earlier found

variable {earlier : List Value}

theorem forall₂_sortKeys (records : List Value) : List.Forall₂ Value.Reordered records (records.map Value.sortKeys) :=
  List.forall₂_map_right_iff.mpr (List.forall₂_same.mpr fun v _ => Value.reordered_sortKeys v)

/-- The lines of records and one more read back as the records and one more. -/
theorem appended_of_write {payload : Entries Value}
    (hearlier : ∀ v ∈ earlier, v.isKeyed = true ∧ v.isPrintable = true)
    (hpayload : (Value.map payload).isKeyed = true ∧ (Value.map payload).isPrintable = true)
    (htext : files.textAt (Path.ofText (pathOr path)) = String.join (earlier.map recordLine))
    (happend : files.append (pathOr path) (recordLine (.map payload)) = (.ok (), written)) :
    Appended path payload earlier files written := by
  obtain ⟨hline, hother⟩ := append_ok happend
  have hall : ∀ v ∈ earlier ++ [Value.map payload], v.isKeyed = true ∧ v.isPrintable = true := by
    intro v hv
    rcases List.mem_append.mp hv with hv | hv
    · exact hearlier v hv
    · exact List.mem_singleton.mp hv ▸ hpayload
  have hrecords : written.textAt (Path.ofText (pathOr path)) =
      String.join ((earlier ++ [Value.map payload]).map recordLine) := by
    rw [hline, htext, List.map_append, String.join_append, List.map_singleton, String.join_cons, String.join_nil,
      String.append_empty]
  refine ⟨⟨_, not_mem_line (by decide) (.map payload), hline⟩, hother, earlier.map Value.sortKeys,
    (Value.map payload).sortKeys, ?_, forall₂_sortKeys earlier, Value.reordered_sortKeys _⟩
  rw [read_of_recordLines (present_of_append happend) hrecords hall, List.map_append, List.map_singleton]

theorem opened_of_append (hearlier : ∀ v ∈ earlier, v.isKeyed = true ∧ v.isPrintable = true)
    (htext : files.textAt (Path.ofText (pathOr path)) = String.join (earlier.map recordLine))
    (happend : files.append (pathOr path) "" = (.ok (), written)) : Opened path earlier files written := by
  have hpresent := present_of_append happend
  have htexts : ∀ q, written.textAt q = files.textAt q := by
    intro q
    have h := textAt_append_empty q (pathOr path) files
    rwa [happend] at h
  refine ⟨hpresent.isFile, htexts, (append_ok happend).2, earlier.map Value.sortKeys, ?_, forall₂_sortKeys earlier⟩
  exact read_of_recordLines hpresent ((htexts _).trans htext) hearlier

theorem missingKeys_eq_nil_iff : missingKeys record = [] ↔ ∀ key ∈ requiredKeys, key ∈ Entries.keys record := by
  rw [missingKeys_eq, List.filter_eq_nil_iff]
  exact forall₂_congr fun key _ => by simp

theorem writeGeneration_of_keys {time : String} (h : ∀ key ∈ requiredKeys, key ∈ Entries.keys record) :
    writeGeneration path record time files = writeRecord (pathOr path) (.map (stamped record time)) files := by
  rw [writeGeneration, missingKeys_eq_nil_iff.mpr h]

/-- Whatever earlier calls left, in a log that can be written: a record that lacks a key is refused with
the keys that it lacks, and no file or folder is touched; any other is one line more, which reads back
behind the earlier records as the record's own entries and the stamps that it did not have. One that holds
a whole number too long to be written out fails as unwritable: the log is opened and nothing is written. -/
theorem writeGeneration_outcome (path time : String) (record : Entries Value) (calls : List (String × Value))
    (hstart : start.textAt (Path.ofText (pathOr path)) = "")
    (hwritable : Writable (pathOr path) (left calls start))
    (hcalls : ∀ call ∈ calls, call.2.isKeyed = true) (hrecord : (Value.map record).isKeyed = true) :
    (∀ missing, missing = requiredKeys.filter (· ∉ Entries.keys record) → missing ≠ [] →
      writeGeneration path record time (left calls start) = (.error (.missingRecordKeys missing), left calls start) ∧
      (Fault.missingRecordKeys missing).message? =
        some ("generation record missing keys: " ++ ", ".intercalate missing)) ∧
    ((∀ key ∈ requiredKeys, key ∈ Entries.keys record) → (Value.map record).isPrintable = true → ∃ written,
      writeGeneration path record time (left calls start) = (.ok (), written) ∧
      Appended path (record ++ stamps record time) (reached (Path.ofText (pathOr path)) calls start)
        (left calls start) written) ∧
    ((∀ key ∈ requiredKeys, key ∈ Entries.keys record) → (Value.map record).isPrintable = false → ∃ opened,
      writeGeneration path record time (left calls start) = (.error .unwritable, opened) ∧
      Opened path (reached (Path.ofText (pathOr path)) calls start) (left calls start) opened) := by
  have hearlier : ∀ v ∈ reached (Path.ofText (pathOr path)) calls start, v.isKeyed = true ∧ v.isPrintable = true := by
    intro v hv
    obtain ⟨hprintable, call, hcall, rfl⟩ := mem_reached hv
    exact ⟨hcalls call hcall, hprintable⟩
  have htext : (left calls start).textAt (Path.ofText (pathOr path)) =
      String.join ((reached (Path.ofText (pathOr path)) calls start).map recordLine) := by
    rw [textAt_left, hstart, String.empty_append]
  refine ⟨?_, fun hkeys hprintable => ?_, fun hkeys hlong => ?_⟩
  · rintro missing rfl hmissing
    refine ⟨?_, rfl⟩
    rw [← missingKeys_eq] at hmissing ⊢
    rw [writeGeneration]
    split
    · exact absurd ‹_› hmissing
    · rfl
  · have hstamped := (stamped_printable_iff time).mpr hprintable
    obtain ⟨written, happend⟩ := hwritable (recordLine (.map (stamped record time)))
    rw [writeGeneration_of_keys hkeys, writeRecord_of_printable hstamped, ← stamped_eq]
    exact ⟨written, happend, appended_of_write hearlier ⟨stamped_keyed time hrecord, hstamped⟩ htext happend⟩
  · have hstamped := Bool.eq_false_iff.mpr (mt (stamped_printable_iff time).mp (Bool.eq_false_iff.mp hlong))
    obtain ⟨opened, happend⟩ := hwritable ""
    rw [writeGeneration_of_keys hkeys, writeRecord_of_unprintable hstamped, happend]
    exact ⟨opened, rfl, opened_of_append hearlier htext happend⟩

/-- Calls by two spellings of one path, for another file and for a file below a file, which fails. -/
def mixedCalls : List (String × Value) :=
  [("log.jsonl", .map [("b", .list [.null, .float .nan]), ("a", .str "\"\\\n\u2028")]),
    ("other/log.jsonl", .int 5),
    ("log.jsonl/log.jsonl", .null),
    ("./log.jsonl", .map [("id", .int 7)])]

/-- A record with every key, out of order, and a generator of its own. -/
def mixedGeneration : Entries Value :=
  [("sha1", .str "0a"), ("generator", .null), ("name", .str "\u2028"), ("id", .map [("y", .int (-1)), ("x", .bool true)])]

theorem mixedCalls_writable : Writable "log.jsonl" (left mixedCalls .empty) := by
  have hok : ((left mixedCalls .empty).append "log.jsonl" "").1.toBool = true := by decide +kernel
  obtain ⟨⟨⟩, hresult⟩ := Outcome.exists_ok hok
  exact (writable_of_append (Prod.ext hresult rfl)).1

/-- A record with every key and an id that is too long to be written out. -/
def longGeneration : Entries Value := [("id", .int Value.longNumber), ("name", .str "A"), ("sha1", .str "0a")]

theorem longGeneration_unprintable : (Value.map longGeneration).isPrintable = false := by
  refine Bool.eq_false_iff.mpr fun h => ?_
  have hid := Value.isPrintable_map_iff.mp h ("id", .int Value.longNumber) List.mem_cons_self
  cases Value.longNumber_unprintable.symm.trans hid

/-- Two records reached the log. The record that has its name only is refused, the one that has
everything but a time is stamped with that, and of the one whose id is too long nothing is written. -/
theorem mixedGeneration_appended : Writable "log.jsonl" (left mixedCalls .empty) ∧
    writeGeneration "log.jsonl" [("name", .str "A")] "09:00" (left mixedCalls .empty) =
      (.error (.missingRecordKeys ["id", "sha1"]), left mixedCalls .empty) ∧
    (∃ written, writeGeneration "log.jsonl" mixedGeneration "09:00" (left mixedCalls .empty) = (.ok (), written) ∧
      Appended "log.jsonl" (mixedGeneration ++ [("timestamp", .str "09:00")])
        [.map [("b", .list [.null, .float .nan]), ("a", .str "\"\\\n\u2028")], .map [("id", .int 7)]]
        (left mixedCalls .empty) written) ∧
    ∃ opened, writeGeneration "log.jsonl" longGeneration "09:00" (left mixedCalls .empty) = (.error .unwritable, opened) ∧
      Opened "log.jsonl" [.map [("b", .list [.null, .float .nan]), ("a", .str "\"\\\n\u2028")], .map [("id", .int 7)]]
        (left mixedCalls .empty) opened := by
  have hcalls : ∀ call ∈ mixedCalls, call.2.isKeyed = true := by decide
  refine ⟨mixedCalls_writable, ?_, ?_, ?_⟩
  · exact ((writeGeneration_outcome "log.jsonl" "09:00" [("name", .str "A")] mixedCalls rfl mixedCalls_writable hcalls
      (by decide)).1 _ rfl (by decide)).1
  · exact (writeGeneration_outcome "log.jsonl" "09:00" mixedGeneration mixedCalls rfl mixedCalls_writable hcalls
      (by decide)).2.1 (by decide) (by decide)
  · exact (writeGeneration_outcome "log.jsonl" "09:00" longGeneration mixedCalls rfl mixedCalls_writable hcalls
      rfl).2.2 (by decide) longGeneration_unprintable

/-- A record that lacks no key is not appended, and yet there is a file where none was. -/
theorem longGeneration_not_written : Writable "log.jsonl" Files.empty ∧
    (Value.map longGeneration).isKeyed = true ∧ (∀ key ∈ requiredKeys, key ∈ Entries.keys longGeneration) ∧
    (writeGeneration "log.jsonl" longGeneration "09:00" Files.empty).1 = .error .unwritable ∧
    Files.empty.isFile (Path.ofText "log.jsonl") = false ∧
    (writeGeneration "log.jsonl" longGeneration "09:00" Files.empty).2.isFile (Path.ofText "log.jsonl") = true := by
  have hkeys : ∀ key ∈ requiredKeys, key ∈ Entries.keys longGeneration := by decide
  obtain ⟨opened, happend⟩ := writable_empty ""
  have hstamped := Bool.eq_false_iff.mpr
    (mt (stamped_printable_iff "09:00").mp (Bool.eq_false_iff.mp longGeneration_unprintable))
  have hwrite : writeGeneration "log.jsonl" longGeneration "09:00" Files.empty = (.error .unwritable, opened) := by
    have hpath : pathOr "log.jsonl" = "log.jsonl" := by decide
    rw [writeGeneration_of_keys hkeys, writeRecord_of_unprintable hstamped, hpath, happend]
    rfl
  rw [hwrite]
  exact ⟨writable_empty, rfl, hkeys, rfl, by decide, (present_of_append happend).isFile⟩

end ShaderLoom.Journal
