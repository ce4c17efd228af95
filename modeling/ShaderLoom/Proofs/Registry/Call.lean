/-
  ShaderLoom.Proofs.Registry.Call — what a registry is asked, and what it should say.

  A registry is asked one thing after another (`Call`), each request at a time. It serves a request
  on the session that the earlier ones left and gives a reply (`serve`); a run keeps, turn by turn,
  what was asked, what was replied and the sessions around it (`turns`).

  The reference has no session. It reads the catalog only (`Reference.reply?`): an id or a name stands
  for its preset or, if it has none, for shader 0, and what is said is the shader composed from it.
-/

import ShaderLoom.Proofs.Log.Append
import ShaderLoom.Proofs.Registry.Catalog

namespace ShaderLoom

/-! ## Requests and replies -/

inductive Call where
  | byId (id : Value)
  | byName (name : Value)
  | all
  | config (id : Value)
  | cachedIds
  | custom (c : ShaderConfig)

structure Request where
  call : Call
  time : String

inductive Reply (α : Type) where
  | one (result : Except Fault α)
  | many (result : Except Fault (List α))
  | config (result : Except Fault (Option ShaderConfig))
  | ids (ids : List Int)

namespace Reply

variable {α β : Type}

def map (f : α → β) : Reply α → Reply β
  | one result => one (result.map f)
  | many result => many (result.map (List.map f))
  | config result => config result
  | ids l => ids l

def fault? : Reply α → Option Fault
  | one (.error fault) | many (.error fault) | config (.error fault) => some fault
  | _ => none

/-- What a reply hands out. -/
def entries : Reply α → List α
  | one (.ok e) => [e]
  | many (.ok l) => l
  | _ => []

end Reply

/-! ## Runs -/

/-- One request of a run, with the sessions before and after it. -/
structure Turn where
  request : Request
  before : Session
  reply : Reply ShaderEntry
  after : Session

namespace Registry

def serve (r : Registry) (q : Request) (s : Session) : Reply ShaderEntry × Session :=
  match q.call with
  | .byId id =>
    let (result, s) := r.shaderById q.time id s
    (.one result, s)
  | .byName name =>
    let (result, s) := r.shaderByName q.time name s
    (.one result, s)
  | .all =>
    let (result, s) := r.allShaders q.time s
    (.many result, s)
  | .config id => (.config (r.config id), s)
  | .cachedIds => (.ids (cachedIds s), s)
  | .custom c =>
    let (result, s) := r.customShader q.time c s
    (.one result, s)

def turn (r : Registry) (q : Request) (s : Session) : Turn := ⟨q, s, (r.serve q s).1, (r.serve q s).2⟩

def turns (r : Registry) : List Request → Session → List Turn
  | [], _ => []
  | q :: rest, s => r.turn q s :: turns r rest (r.serve q s).2

/-- The session that requests leave. -/
def after (r : Registry) (requests : List Request) (s : Session) : Session :=
  requests.foldl (fun s q => (r.serve q s).2) s

/-- What had to be logged for a reply was. Nothing but the log touches files, so it is enough that
the reply is no fault of files. -/
def Wrote (r : Registry) (reply : Reply ShaderEntry) : Prop :=
  r.logPath = none ∨ ∀ fault, reply.fault? = some fault → fault.isOfFiles = false

/-- There is no log or every write of it succeeds. -/
def LogsAll (r : Registry) (requests : List Request) (s : Session) : Prop :=
  ∀ t ∈ r.turns requests s, r.Wrote t.reply

end Registry

/-! ## The reference -/

/-- What a shader is to whoever asked for it, without the serial that tells entries apart. -/
structure Shader where
  config : ShaderConfig
  source : String

def ShaderEntry.shader (e : ShaderEntry) : Shader := ⟨e.config, e.source⟩

def Shader.make (c : ShaderConfig) : Except Fault Shader := do
  return ⟨c, ← Program.compose c⟩

namespace Reference

def byId? (catalog : List (Int × ShaderConfig)) (id : Int) : Option (Int × ShaderConfig) :=
  catalog.find? (·.1 == id)

/-- The one preset of a name. -/
def byName? (catalog : List (Int × ShaderConfig)) (name : Value) : Option (Int × ShaderConfig) :=
  match catalog.filter fun p => p.2.name.equals name with
  | [p] => some p
  | _ => none

def orStandard (catalog : List (Int × ShaderConfig)) (found : Option (Int × ShaderConfig)) :
    Option (Int × ShaderConfig) :=
  found.or (byId? catalog 0)

/-- The presets that a call looks up, in the order it does. -/
def lookedUp (catalog : List (Int × ShaderConfig)) : Call → List (Int × ShaderConfig)
  | .byId id => if id.isKey then (orStandard catalog (id.wholeNumber?.bind (byId? catalog))).toList else []
  | .byName name => (orStandard catalog (byName? catalog name)).toList
  | .all => Registry.ascending catalog
  | .config _ | .cachedIds | .custom _ => []

def make : Option (Int × ShaderConfig) → Except Fault Shader
  | some p => Shader.make p.2
  | none => .error .noDefaultShader

/-- A custom shader is made unless its configuration is refused or the verdict on it cannot be told. -/
def custom (strict : Bool) (c : ShaderConfig) : Except Fault Shader :=
  match c.validate with
  | .error fault => .error fault
  | .ok verdict =>
    if strict && !verdict.ok then .error (.invalidCustomShader c.name verdict.problems) else Shader.make c

/-- What is said to a call; the ids that are cached are a matter of what was asked before. -/
def reply? (catalog : List (Int × ShaderConfig)) (strict : Bool) : Call → Option (Reply Shader)
  | .byId id =>
    some (.one (if id.isKey then make (orStandard catalog (id.wholeNumber?.bind (byId? catalog)))
      else .error .wrongKind))
  | .byName name => some (.one (make (orStandard catalog (byName? catalog name))))
  | .all => some (.many ((Registry.ascending catalog).mapM fun p => Shader.make p.2))
  | .config id =>
    some (.config (if id.isKey then .ok ((id.wholeNumber?.bind (byId? catalog)).map (·.2))
      else .error .wrongKind))
  | .custom c => some (.one (custom strict c))
  | .cachedIds => none

end Reference

end ShaderLoom
