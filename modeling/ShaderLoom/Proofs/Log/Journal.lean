/-
  ShaderLoom.Proofs.Log.Journal — records written to a file and read back.

  Records are appended one after another (`writeAll`), each as its line and a line feed
  (`writeAll_ok`). A line holds no line end, so the text of the file is cut back into the same
  lines (`linesOf_recordLines`), and each reads as its record with the keys in order
  (`recordsOf_lines`). So what was written to a path where no file was reads back in order, and
  nothing written leaves no file to read (`read_writeAll`).
-/

import ShaderLoom.Log.Journal
import ShaderLoom.Proofs.Json.Read
import ShaderLoom.Proofs.Log.Append

namespace ShaderLoom

/-! ## Lines -/

namespace Text

theorem unifyLineEnds_of_not_mem {cs : List Char} (h : '\r' ∉ cs) : unifyLineEnds cs = cs := by
  induction cs with
  | nil => rfl
  | cons c cs ih =>
    have hc : c ≠ '\r' := fun e => h (e ▸ List.mem_cons_self)
    rw [unifyLineEnds.eq_2 c cs fun _ e _ => hc e, if_neg hc, ih fun hm => h (List.mem_cons_of_mem _ hm)]

theorem pieces_line {separator : Char} {l : List Char} (h : separator ∉ l) (rest : List Char) :
    pieces separator (l ++ separator :: rest) = l :: pieces separator rest := by
  induction l with
  | nil => exact if_pos rfl
  | cons c l ih =>
    have hc : c ≠ separator := fun e => h (e ▸ List.mem_cons_self)
    rw [List.cons_append, pieces, if_neg hc, ih fun hm => h (List.mem_cons_of_mem _ hm)]

/-- Lines that are each ended come apart again, with nothing after the last end. -/
theorem pieces_lines {separator : Char} {lines : List (List Char)} (h : ∀ l ∈ lines, separator ∉ l) :
    pieces separator (lines.flatMap fun l => l ++ [separator]) = lines ++ [[]] := by
  induction lines with
  | nil => rfl
  | cons l ls ih =>
    rw [List.flatMap_cons, List.append_assoc, List.singleton_append, pieces_line (h l List.mem_cons_self),
      ih fun l hl => h l (List.mem_cons_of_mem _ hl), List.cons_append]

end Text

namespace Files

variable {path : String} {files : Files}

/-! ## Files that were written -/

/-- A text leads to a file that is there. -/
structure Present (path : String) (files : Files) : Prop where
  leads : Leads files path (Path.ofText path)
  isFile : files.isFile (Path.ofText path) = true

theorem isFile_put (p : Path) (text : String) (contents : List (Path × String)) (folders : List Path) :
    isFile p ⟨put p text contents, folders⟩ = true := by
  induction contents with
  | nil => simp [put, isFile, read?]
  | cons entry rest ih =>
    obtain ⟨q, old⟩ := entry
    by_cases hq : q = p
    · simp [put, isFile, read?, hq]
    · simpa [put, isFile, read?, hq] using ih

theorem present_of_append {text : String} {files' : Files} (h : files.append path text = (.ok (), files')) :
    Present path files' := by
  obtain ⟨folders, p, -, -, hp, rfl⟩ := append_eq_ok h
  cases eq_ofText_of_leads hp
  exact ⟨hp.put, isFile_put _ _ _ _⟩

theorem read_of_leads {p : Path} (h : Leads files path p) :
    files.read path = (files.read? p).elim (.error .noSuchFile) .ok := by
  rw [Files.read, locate_ok_iff.mpr h]
  cases hread : files.read? p <;> simp only [bind, Except.bind, hread] <;> rfl

/-- What was written to a file is there to be read. -/
theorem read_of_present (h : Present path files) : files.read path = .ok (files.textAt (Path.ofText path)) := by
  have hfile := h.isFile
  rw [read_of_leads h.leads, textAt]
  rw [isFile] at hfile
  cases hread : files.read? (Path.ofText path) with
  | none =>
    rw [hread] at hfile
    cases hfile
  | some text => rfl

/-! ## Files that are not there -/

/-- Where folders can be made they are there already or nothing is in their way. -/
theorem follow_of_makeFolders {here : Path} {names : List String} {made : Files}
    (hmade : makeFolders here names files = (.ok (), made)) :
    (∃ folder, files.follow here names = .ok folder) ∨ files.follow here names = .error .noSuchFile := by
  fun_induction follow files here names with
  | case1 here => exact Or.inl ⟨here, rfl⟩
  | case2 here name rest hstay ih =>
    rw [makeFolders, if_pos hstay] at hmade
    exact ih hmade
  | case3 here rest hstay ih =>
    rw [makeFolders, if_neg hstay, if_pos rfl] at hmade
    exact ih hmade
  | case4 here name rest hstay hup hlong =>
    rw [makeFolders, if_neg hstay, if_neg hup] at hmade
    dsimp only at hmade
    split at hmade
    · cases hmade
    · cases hmade
  | case5 here name rest hstay hup hshort hfile =>
    rw [makeFolders, if_neg hstay, if_neg hup] at hmade
    dsimp only at hmade
    split at hmade
    · cases hmade
    · cases hmade
  | case6 here name rest hstay hup hshort hfile hfolder ih =>
    rw [makeFolders, if_neg hstay, if_neg hup] at hmade
    dsimp only at hmade
    split at hmade
    · cases hmade
    · exact ih hmade
  | case7 => exact Or.inr rfl

theorem nonempty_of_writable (hwritable : Writable path files) : path ≠ "" := by
  obtain ⟨files', happend⟩ := hwritable ""
  obtain ⟨_, _, _, _, hp, _⟩ := append_eq_ok happend
  exact hp.nonempty

/-- A file that could be written but is not there is missed, whether its folder is there or not. -/
theorem read_of_fresh (hwritable : Writable path files) (hfresh : files.read? (Path.ofText path) = none) :
    files.read path = .error .noSuchFile := by
  obtain ⟨files', happend⟩ := hwritable ""
  obtain ⟨folders, p, hmade, -, hp, -⟩ := append_eq_ok happend
  rcases follow_of_makeFolders hmade with ⟨folder, hfolder⟩ | hmissing
  · have hfolders := makeFolders_folders [] (Path.names path).dropLast files
    rw [hmade] at hfolders
    have hleads : Leads files path (Path.ofText path) := {
      noNull := hp.noNull
      nonempty := hp.nonempty
      folder := ⟨folder, hfolder, by rw [Path.ofText, eq_walk_of_follow hfolder]⟩
      ownName := hp.ownName
      notFolder := by
        rw [← eq_ofText_of_leads hp]
        exact Bool.eq_false_iff.mpr fun h => Bool.eq_false_iff.mp hp.notFolder (isFolder_mono hfolders h)
      short := hp.short }
    rw [read_of_leads hleads, hfresh]
    rfl
  · rw [Files.read, locate_eq, if_neg (by simp [hp.noNull]), if_neg hp.nonempty, hmissing]
    rfl

end Files

namespace Journal

open Files Json

variable {path : String} {files : Files} {records : List Value}

def recordLine (record : Value) : String := line record ++ "\n"

theorem not_mem_line {c : Char} (hc : isPlain c = false) (v : Value) : c ∉ (line v).toList := by
  intro hm
  rw [plain_line v c hm] at hc
  cases hc

theorem not_blank_line (v : Value) : (line v).toList.all Text.isBlank = false := by
  obtain ⟨c, cs, hline, hc⟩ := head_line v
  have hplain : isPlain c = true := plain_line v c (hline ▸ List.mem_cons_self)
  have hspace : c ≠ ' ' := by
    rintro rfl
    cases hc
  have hrange : 32 ≤ c.toNat ∧ c.toNat ≤ 126 := by
    simpa [isPlain, Char.le_def, UInt32.le_iff_toNat_le] using hplain
  have hblank : Text.isBlank c = false := by
    simp [Text.isBlank, Text.isNumberBlank, Text.isWideBlank, hspace]
    omega
  rw [hline, List.all_cons, hblank, Bool.false_and]

theorem toList_recordLines (records : List Value) :
    (String.join (records.map recordLine)).toList = (records.map fun v => (line v).toList).flatMap fun l => l ++ ['\n'] := by
  have hend : "\n".toList = ['\n'] := String.toList_ofList
  rw [String.toList_join, List.flatMap_map, List.flatMap_map]
  simp only [recordLine, String.toList_append, hend]

/-- The lines of the records, and nothing after the last line feed. -/
theorem linesOf_recordLines (records : List Value) :
    linesOf (String.join (records.map recordLine)) = (records.map fun v => (line v).toList) ++ [[]] := by
  have hlines : ∀ {c : Char}, isPlain c = false → ∀ l ∈ records.map fun v => (line v).toList, c ∉ l := by
    intro c hc
    exact List.forall_mem_map.mpr fun v _ => not_mem_line hc v
  have hreturn : '\r' ∉ (records.map fun v => (line v).toList).flatMap fun l => l ++ ['\n'] := by
    intro hm
    obtain ⟨l, hl, hm⟩ := List.mem_flatMap.mp hm
    rcases List.mem_append.mp hm with hm | hm
    · exact hlines (by decide) l hl hm
    · exact absurd (List.mem_singleton.mp hm) (by decide)
  rw [linesOf, toList_recordLines, Text.unifyLineEnds_of_not_mem hreturn, Text.pieces_lines (hlines (by decide))]

theorem recordsOf_lines (h : ∀ v ∈ records, v.isKeyed = true ∧ v.isPrintable = true) :
    recordsOf ((records.map fun v => (line v).toList) ++ [[]]) = ⟨records.map Value.sortKeys, none⟩ := by
  induction records with
  | nil => rfl
  | cons v rest ih =>
    obtain ⟨hkeyed, hprintable⟩ := h v List.mem_cons_self
    rw [List.map_cons, List.cons_append, recordsOf, if_neg (Bool.eq_false_iff.mp (not_blank_line v)),
      value_line hkeyed hprintable, ih fun v hv => h v (List.mem_cons_of_mem _ hv)]
    rfl

/-! ## Writing and reading -/

/-- Appends records one after another; the first that cannot be written ends it. -/
def writeAll (path : String) : List Value → Files → Except Fault Unit × Files
  | [], files => (.ok (), files)
  | record :: rest, files =>
    match writeRecord path record files with
    | (.ok (), files) => writeAll path rest files
    | (.error fault, files) => (.error fault, files)

theorem writeRecord_of_printable {record : Value} (h : record.isPrintable = true) (path : String) (files : Files) :
    writeRecord path record files = files.append path (recordLine record) := by
  rw [writeRecord, lineOf, if_pos h]
  rfl

/-- Nothing is written of a record that cannot be written out, but the file is opened. -/
theorem writeRecord_of_unprintable {record : Value} (h : record.isPrintable = false) (path : String) (files : Files) :
    writeRecord path record files =
      ((files.append path "").1 >>= fun _ => .error .unwritable, (files.append path "").2) := by
  rw [writeRecord, lineOf, h]
  rfl

/-- What a record puts in its file. -/
def written (record : Value) : String := if record.isPrintable then recordLine record else ""

/-- How writing a record ends once its file is open. -/
def ended (record : Value) : Except Fault Unit := if record.isPrintable then .ok () else .error .unwritable

theorem writeRecord_eq (path : String) (record : Value) (files : Files) : writeRecord path record files =
    ((files.append path (written record)).1 >>= fun _ => ended record, (files.append path (written record)).2) := by
  cases h : record.isPrintable with
  | true =>
    rw [writeRecord_of_printable h, written, ended, if_pos h, if_pos h]
    rcases files.append path (recordLine record) with ⟨fault | ⟨⟨⟩⟩, files'⟩ <;> rfl
  | false =>
    rw [writeRecord_of_unprintable h, written, ended, h]
    rfl

/-- Only files and what cannot be written out keep a record from being written. -/
theorem writeRecord_error {record : Value} {fault : Fault} (h : (writeRecord path record files).1 = .error fault) :
    fault.isOfFiles = true := by
  rw [writeRecord_eq] at h
  rcases happend : files.append path (written record) with ⟨fault' | ⟨⟨⟩⟩, files'⟩
  · rw [happend] at h
    cases h
    exact append_error happend
  · rw [happend] at h
    change ended record = _ at h
    rw [ended] at h
    split at h
    · cases h
    · cases h
      rfl

theorem writeRecord_eq_ok {record : Value} (h : (writeRecord path record files).1 = .ok ()) :
    record.isPrintable = true ∧ files.append path (recordLine record) = (.ok (), (writeRecord path record files).2) := by
  cases hprintable : record.isPrintable with
  | true =>
    rw [writeRecord_of_printable hprintable] at h ⊢
    exact ⟨rfl, Prod.ext h rfl⟩
  | false =>
    rw [writeRecord_of_unprintable hprintable] at h
    obtain ⟨-, -, h⟩ := Outcome.bind_eq_ok.mp h
    cases h

/-- A record that is not written changes no file, unless its file was opened for it. -/
theorem contents_of_writeRecord_error {record : Value} {fault : Fault}
    (h : (writeRecord path record files).1 = .error fault) (hfault : fault ≠ .unwritable) :
    (writeRecord path record files).2.contents = files.contents := by
  rw [writeRecord_eq] at h ⊢
  dsimp only at h ⊢
  rw [append_contents]
  cases happend : (files.append path (written record)).1 with
  | error fault' => rfl
  | ok _ =>
    rw [happend] at h
    change ended record = _ at h
    rw [ended] at h
    split at h
    · cases h
    · cases h
      exact absurd rfl hfault

/-- Where a file can be written, every record is, behind what was there. -/
theorem writeAll_ok {records : List Value} (hwritable : Writable path files)
    (hprintable : ∀ v ∈ records, v.isPrintable = true) :
    ∃ written, writeAll path records files = (.ok (), written) ∧
      written.textAt (Path.ofText path) = files.textAt (Path.ofText path) ++ String.join (records.map recordLine) ∧
        (records ≠ [] ∨ Present path files → Present path written) := by
  induction records generalizing files with
  | nil => exact ⟨files, rfl, String.append_empty.symm, fun h => h.resolve_left fun h => h rfl⟩
  | cons record rest ih =>
    obtain ⟨files', hwrite⟩ := hwritable (recordLine record)
    obtain ⟨written, hrest, htext, hpresent⟩ := ih (writable_of_append hwrite).2 fun v hv =>
      hprintable v (List.mem_cons_of_mem _ hv)
    refine ⟨written, ?_, ?_, fun _ => hpresent (Or.inr (present_of_append hwrite))⟩
    · rw [writeAll, writeRecord_of_printable (hprintable record List.mem_cons_self), hwrite]
      exact hrest
    · rw [htext, (append_ok hwrite).1, List.map_cons, String.join_cons, String.append_assoc]

/-- A file that holds the lines of records is read as the records. -/
theorem read_of_recordLines (h : Present (pathOr path) files)
    (htext : files.textAt (Path.ofText (pathOr path)) = String.join (records.map recordLine))
    (hrecords : ∀ v ∈ records, v.isKeyed = true ∧ v.isPrintable = true) :
    read path files = ⟨records.map Value.sortKeys, none⟩ := by
  rw [read, read_of_present h, htext]
  show recordsOf (linesOf _) = _
  rw [linesOf_recordLines, recordsOf_lines hrecords]

/-- Records written to a file that was not there are read back, each equal up to the order of keys,
in their order; the file has one line for each. With no record there is still no file. -/
theorem read_writeAll (records : List Value) (hwritable : Writable path files)
    (hfresh : files.read? (Path.ofText path) = none)
    (hrecords : ∀ v ∈ records, v.isKeyed = true ∧ v.isPrintable = true) :
    ∃ written found, writeAll path records files = (.ok (), written) ∧
      read path written = ⟨found, if records = [] then some .noSuchFile else none⟩ ∧
      List.Forall₂ Value.Reordered records found ∧
      written.textAt (Path.ofText path) = String.join (records.map recordLine) ∧
      (∀ v ∈ records, '\n' ∉ (line v).toList) ∧
      ∀ v ∈ records, ∀ w, v.Reordered w → line v = line w := by
  obtain ⟨written, hwrite, htext, hpresent⟩ := writeAll_ok hwritable fun v hv => (hrecords v hv).2
  have hempty : files.textAt (Path.ofText path) = "" := by rw [textAt, hfresh]; rfl
  rw [hempty, String.empty_append] at htext
  have hpath : pathOr path = path := if_neg (nonempty_of_writable hwritable)
  refine ⟨written, records.map Value.sortKeys, hwrite, ?_, ?_, htext, fun v _ => not_mem_line (by decide) v,
    fun v hv w => line_eq_of_reordered (hrecords v hv).1⟩
  · by_cases hne : records = []
    · subst hne
      cases hwrite
      rw [read, hpath, read_of_fresh hwritable hfresh]
      rfl
    · rw [if_neg hne]
      exact read_of_recordLines (hpath.symm ▸ hpresent (Or.inl hne)) (hpath.symm ▸ htext) hrecords
  · exact List.forall₂_map_right_iff.mpr (List.forall₂_same.mpr fun v _ => Value.reordered_sortKeys v)

/-- Two records with text of all kinds, numbers of all kinds and keys out of order. -/
def mixedRecords : List Value :=
  [.map [("b", .list [.null, .bool true, .int (-12), .float .nan, .float (.infinite true), .float .one]),
      ("a", .str "\"\\\n\x7f\u2028😀")],
    .map [("id", .int 7), ("", .map [("y", .str "2"), ("x", .float .zero)])]]

theorem mixedRecords_fit : ∀ v ∈ mixedRecords, v.isKeyed = true ∧ v.isPrintable = true := by decide

theorem writable_empty : Writable "log.jsonl" Files.empty := by
  have hok : (Files.empty.append "log.jsonl" "").1.toBool = true := by decide
  obtain ⟨⟨⟩, hresult⟩ := Outcome.exists_ok hok
  exact (writable_of_append (Prod.ext hresult rfl)).1

theorem fresh_empty : Files.empty.read? (Path.ofText "log.jsonl") = none := by decide

theorem mixedRecords_read : Writable "log.jsonl" Files.empty ∧ Files.empty.read? (Path.ofText "log.jsonl") = none ∧
    (∀ v ∈ mixedRecords, v.isKeyed = true ∧ v.isPrintable = true) ∧
    ∃ written found, writeAll "log.jsonl" mixedRecords Files.empty = (.ok (), written) ∧
      read "log.jsonl" written = ⟨found, none⟩ ∧ List.Forall₂ Value.Reordered mixedRecords found := by
  obtain ⟨written, found, hwrite, hread, hfound, -⟩ :=
    read_writeAll mixedRecords writable_empty fresh_empty mixedRecords_fit
  exact ⟨writable_empty, fresh_empty, mixedRecords_fit, written, found, hwrite, hread, hfound⟩

/-- Where no record was written the reader finds no file, which is a fault and not an empty log. -/
theorem read_nothing_written : Writable "log.jsonl" Files.empty ∧ Files.empty.read? (Path.ofText "log.jsonl") = none ∧
    writeAll "log.jsonl" [] Files.empty = (.ok (), Files.empty) ∧
    (read "log.jsonl" Files.empty).stopped = some .noSuchFile ∧ read "log.jsonl" Files.empty ≠ ⟨[], none⟩ := by
  have hread : read "log.jsonl" Files.empty = ⟨[], some .noSuchFile⟩ := by
    rw [read, pathOr, if_neg (by decide), read_of_fresh writable_empty fresh_empty]
  refine ⟨writable_empty, fresh_empty, rfl, by rw [hread], ?_⟩
  rw [hread]
  exact fun h => nomatch congrArg Records.stopped h

end Journal

end ShaderLoom
