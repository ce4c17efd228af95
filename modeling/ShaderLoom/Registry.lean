/-
  ShaderLoom.Registry — shaders by id and by name, each made once.

  A registry is a catalog of presets in the order of their ids. What it has made so far is its
  session: the cache, the log files, the composed ids and the notes written. Every operation
  takes a session to an answer and the next session. A preset is made when it is first asked for
  and kept once it is made and logged; ids and names that the catalog does not have fall back on
  shader 0. Custom shaders are made anew each time and never kept.
-/

import ShaderLoom.Digest
import ShaderLoom.Log.Journal
import ShaderLoom.Program

namespace ShaderLoom

structure Registry where
  /-- The presets by ascending id. -/
  presets : List (Int × ShaderConfig)
  strict : Bool
  /-- The generation log; records are not written without one. -/
  logPath : Option String

/-- A shader with its source. Entries made apart have serials of their own. -/
structure ShaderEntry where
  serial : Nat
  config : ShaderConfig
  source : String

structure Session where
  cache : List (Int × ShaderEntry) := []
  /-- The value that each kept preset was first asked for by: `1`, `1.0` and a truth value may
  all name preset 1. -/
  asked : List (Int × Value) := []
  files : Files := .empty
  /-- The id of every configuration that was composed or failed to, in order. -/
  composed : List Value := []
  made : Nat := 0
  notes : List String := []

namespace Registry

/-! ## Catalogs -/

def lookup {α : Type} (id : Int) (l : List (Int × α)) : Option α :=
  (l.find? (·.1 == id)).map (·.2)

/-- Presets under their keys; a repeated key keeps its place and takes the later preset. -/
def putPreset (key : Int) (c : ShaderConfig) : List (Int × ShaderConfig) → List (Int × ShaderConfig)
  | [] => [(key, c)]
  | (k, d) :: rest => if k = key then (k, c) :: rest else (k, d) :: putPreset key c rest

/-- Goes through a catalog with the names seen so far. -/
def checkPresets (names : List Value) : List (Int × ShaderConfig) → Except Fault Unit
  | [] => .ok ()
  | (key, c) :: rest =>
    if !(Value.int key).equals c.id then .error (Fault.misfiledPreset key c.id).told
    else if !c.name.isKey then .error .wrongKind
    else if names.any (·.equals c.name) then .error (Fault.repeatedName c.name).told
    else checkPresets (c.name :: names) rest

/-- A catalog must have shader 0, file every preset under its id and give no name twice. -/
def checkCatalog (catalog : List (Int × ShaderConfig)) : Except Fault Unit :=
  if (lookup 0 catalog).isNone then .error .noDefaultShader else checkPresets [] catalog

def ascending (catalog : List (Int × ShaderConfig)) : List (Int × ShaderConfig) :=
  catalog.mergeSort fun a b => decide (a.1 ≤ b.1)

/-- A registry of presets, given in any order. An empty log path is none. -/
def ofCatalog (pairs : List (Int × ShaderConfig)) (strict : Bool) (logPath : Option String) :
    Except Fault Registry := do
  let catalog := pairs.foldl (fun l (key, c) => putPreset key c l) []
  checkCatalog catalog
  return ⟨ascending catalog, strict, logPath.filter (· != "")⟩

/-! ## Making shaders -/

/-- The generation record of a configuration and the source made from it. -/
def record (c : ShaderConfig) (source : String) (cached : Bool) : Entries Value := [
  ("id", c.id),
  ("name", c.name),
  ("effect", .str c.effectTag),
  ("noise", .str c.noiseTag),
  ("cached", .bool cached),
  ("length", .int source.length),
  ("sha1", .str (Digest.sha1 source))]

/-- Writes a note that shows some values; one that cannot be written out is dropped. -/
def note (shown : List Value) (text : String) (s : Session) : Session :=
  if shown.all (·.isPrintable) then { s with notes := s.notes ++ [text] } else s

/-- Composes, notes and logs a shader, at a time. -/
def generate (r : Registry) (time : String) (c : ShaderConfig) (cached : Bool) (s : Session) :
    Except Fault ShaderEntry × Session :=
  let s := { s with composed := s.composed ++ [c.id] }
  match Program.compose c with
  | .error fault => (.error fault, s)
  | .ok source =>
    let entry : ShaderEntry := ⟨s.made, c, source⟩
    let s := note [c.name, c.id] ("INFO: Generated shader " ++ c.name.text ++ " (id=" ++ c.id.text ++ ")")
      { s with made := s.made + 1 }
    match r.logPath with
    | none => (.ok entry, s)
    | some path =>
      let (written, files) := Journal.writeGeneration path (record c source cached) time s.files
      (written.map fun _ => entry, { s with files })

/-! ## Looking up -/

/-- The preset of an id, from the cache or made now. -/
def fetch (r : Registry) (time : String) (id : Int) (asked : Value) (s : Session) :
    Except Fault ShaderEntry × Session :=
  match lookup id s.cache with
  | some entry => (.ok entry, s)
  | none =>
    match lookup id r.presets with
    | none => (.error .noDefaultShader, s)
    | some c =>
      match r.generate time c true s with
      | (.error fault, s) => (.error fault, s)
      | (.ok entry, s) =>
        (.ok entry, { s with cache := s.cache ++ [(id, entry)], asked := s.asked ++ [(id, asked)] })

/-- The preset that an id value names. -/
def known? (r : Registry) (id : Value) : Option Int :=
  id.wholeNumber?.filter fun n => (lookup n r.presets).isSome

/-- What an unknown id or name comes to. -/
def fallback (r : Registry) (time : String) (s : Session) : Except Fault ShaderEntry × Session :=
  r.fetch time 0 (.int 0) s

def shaderById (r : Registry) (time : String) (id : Value) (s : Session) :
    Except Fault ShaderEntry × Session :=
  if id.isKey then
    match r.known? id with
    | some n => r.fetch time n id s
    | none => r.fallback time (note [id] ("DEBUG: Unknown shader id " ++ id.text ++ "; using 0") s)
  else (.error .wrongKind, s)

def shaderByName (r : Registry) (time : String) (name : Value) (s : Session) :
    Except Fault ShaderEntry × Session :=
  match r.presets.find? fun (_, c) => c.name.equals name with
  | some (id, _) => r.fetch time id (.int id) s
  | none => r.fallback time (note [name] ("DEBUG: Unknown shader name " ++ name.inspect ++ "; using 0") s)

/-- The presets of ids one after another, up to the first that fails. -/
def fetchAll (r : Registry) (time : String) : List Int → Session →
    Except Fault (List ShaderEntry) × Session
  | [], s => (.ok [], s)
  | id :: rest, s =>
    match r.fetch time id (.int id) s with
    | (.error fault, s) => (.error fault, s)
    | (.ok entry, s) =>
      match fetchAll r time rest s with
      | (.error fault, s) => (.error fault, s)
      | (.ok entries, s) => (.ok (entry :: entries), s)

def allShaders (r : Registry) (time : String) (s : Session) :
    Except Fault (List ShaderEntry) × Session :=
  r.fetchAll time (r.presets.map (·.1)) s

def config (r : Registry) (id : Value) : Except Fault (Option ShaderConfig) :=
  if id.isKey then .ok (id.wholeNumber?.bind fun n => lookup n r.presets) else .error .wrongKind

/-- The ids of the presets kept, ascending. -/
def cachedIds (s : Session) : List Int := (s.cache.map (·.1)).mergeSort fun a b => decide (a ≤ b)

/-- The same ids as they were first asked for. -/
def cachedAs (s : Session) : List Value :=
  (cachedIds s).map fun id => (lookup id s.asked).getD (.int id)

/-! ## Custom shaders -/

def invalidNote (c : ShaderConfig) (problems : List Problem) : String :=
  "WARNING: Custom shader " ++ c.name.inspect ++ " failed validation (" ++
    intText problems.length ++ " errors); generating anyway"

/-- Makes a shader that is not kept. A strict registry refuses a configuration that the schema
does not pass; any other only notes it. Neither goes on from a verdict that cannot be told. -/
def customShader (r : Registry) (time : String) (c : ShaderConfig) (s : Session) :
    Except Fault ShaderEntry × Session :=
  match c.validate with
  | .error fault => (.error fault, s)
  | .ok verdict =>
    if verdict.ok then r.generate time c false s
    else if r.strict then (.error (Fault.invalidCustomShader c.name verdict.problems).told, s)
    else r.generate time c false (note [c.name] (invalidNote c verdict.problems) s)

end Registry

end ShaderLoom
