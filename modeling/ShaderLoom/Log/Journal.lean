/-
  ShaderLoom.Log.Journal — records appended to files, one line of JSON each.

  A generation record says which shader was made (`id`, `name`) and what came of it (`sha1`). It
  is stamped with the generator and the time unless it says them itself; one that lacks a key is
  refused and nothing is written.
-/

import ShaderLoom.Json.Reading
import ShaderLoom.Json.Written
import ShaderLoom.Log.Files
import ShaderLoom.Text.Blank

namespace ShaderLoom.Journal

def defaultPath : String := "meta/output/vibeshaders/generation.jsonl"

def requiredKeys : List String := ["id", "name", "sha1"]

def generator : String := "vibeshaders/0.1.0"

def pathOr (path : String) : String := if path = "" then defaultPath else path

/-! ## Writing -/

/-- The line of a record, if it can be written out. -/
def lineOf (record : Value) : Except Fault String :=
  if record.isPrintable then .ok (Json.line record ++ "\n") else .error .unwritable

/-- Appends a record. The file is opened first, and so is there even if the record has no line. -/
def writeRecord (path : String) (record : Value) (files : Files) :
    Except Fault Unit × Files :=
  match lineOf record with
  | .ok line => files.append path line
  | .error fault =>
    let (opened, files) := files.append path ""
    (opened >>= fun _ => .error fault, files)

def missingKeys (record : Entries Value) : List String :=
  requiredKeys.filter fun key => !Entries.has key record

/-- Puts a value under a key that has none yet. -/
def putDefault (key : String) (value : Value) (record : Entries Value) : Entries Value :=
  if Entries.has key record then record else Entries.put key value record

def stamped (record : Entries Value) (time : String) : Entries Value :=
  putDefault "timestamp" (.str time) (putDefault "generator" (.str generator) record)

/-- Appends a generation record, stamped with the given time. -/
def writeGeneration (path : String) (record : Entries Value) (time : String) (files : Files) :
    Except Fault Unit × Files :=
  match missingKeys record with
  | [] => writeRecord (pathOr path) (.map (stamped record time)) files
  | missing => (.error (.missingRecordKeys missing), files)

/-! ## Reading -/

/-- The records read before the end or the first fault. -/
structure Records where
  records : List Value
  stopped : Option Fault

def linesOf (text : String) : List (List Char) :=
  Text.pieces '\n' (Text.unifyLineEnds text.toList)

/-- Reads line by line; blank lines are passed over. -/
def recordsOf : List (List Char) → Records
  | [] => ⟨[], none⟩
  | line :: rest =>
    if line.all Text.isBlank then recordsOf rest
    else match Json.value line with
      | .ok v =>
        let others := recordsOf rest
        ⟨v :: others.records, others.stopped⟩
      | .error fault => ⟨[], some fault⟩

def read (path : String) (files : Files) : Records :=
  match files.read (pathOr path) with
  | .ok text => recordsOf (linesOf text)
  | .error fault => ⟨[], some fault⟩

end ShaderLoom.Journal
