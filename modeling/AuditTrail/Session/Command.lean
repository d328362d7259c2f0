import AuditTrail.Session.Schedule

/-!
# Commands

What a session can be told to do, and what it replies.  A command that runs a procedure starts a
task for it and replies with the task's result.
-/

namespace AuditTrail.Session

inductive Command where
  | grantRole (grantee granted : Role)
  | revokeRole (grantee granted : Role)
  | rolesOf (role : Role)
  | failRoles (reason : Option String)
  | grant (role : Role) (resource : Resource) (permissions : List Permission)
  | revoke (role : Role) (resource : Resource) (permissions : List Permission)
  | removeRole (role : Role)
  | saveRole (role : Role) (whitelist : Whitelist)
  | load (role : Role)
  | loadCount
  | storeNames
  | storeSetup
  | cacheSetup
  | pipelineSetup
  | failLoad (key : String) (error : Option Error)
  | failSetup (error : Option Error)
  | writeDocument (bytes : ByteArray)
  | readDocument (raw : Bool)
  | removeDocument
  | makeDirectory (path : FilePath)
  | touch (path : FilePath)
  | listFiles (path : FilePath)
  | cacheGet (role : Role)
  | isCached (role : Role)
  | invalidate (scope : Scope)
  | entryCount
  /-- Opens the present gate, and may close another one behind it. -/
  | gate (closed : Bool)
  | release (n : Nat)
  | spawnGet (name : String) (role : Role)
  | spawnAudit (name : String) (record : Record)
  | join (name : String)
  | audit (record : Record)
  | isFiltered (record : Record)
  | decide (record : Record)
  | append (line : String)
  | lines

inductive Refusal where
  | memoryOnly
  | fileOnly
  | noSuchTask
deriving DecidableEq, Repr

inductive Reply where
  | unit
  | flag (b : Bool)
  | count (n : Nat)
  | text (s : String)
  | texts (xs : List String)
  | whitelist (w : Whitelist)
  | document (value : Json)
  /-- The document is there, and is none. -/
  | unparsable
  | absent
  | pending
  | decision (filtered : Bool) (store : String)
  | error (e : Error)
  | refused (why : Refusal)

namespace Reply

def ofOutcome : Outcome → Reply
  | .unit => unit
  | .flag b => flag b
  | .whitelist w => whitelist w

def ofResult : Except Error Outcome → Reply
  | .ok outcome => ofOutcome outcome
  | .error e => error e

def ofUnit : Except Error Unit → Reply
  | .ok _ => unit
  | .error e => error e

end Reply

def withMemory (s : Session) (f : MemoryStore → Option Error → Reply × Session) : Reply × Session :=
  match s.world.store with
  | .memory store fault => f store fault
  | .file _ => (.refused .memoryOnly, s)

def withFile (s : Session) (f : FileStore → Reply × Session) : Reply × Session :=
  match s.world.store with
  | .file store => f store
  | .memory _ _ => (.refused .fileOnly, s)

def setStore (s : Session) (store : Store) : Session := { s with world := { s.world with store } }

def setGraph (s : Session) (graph : RoleGraph) : Session :=
  { s with world := { s.world with graph } }

def changeMemory (s : Session) (change : MemoryStore → MemoryStore) : Reply × Session :=
  s.withMemory fun store fault => (.unit, s.setStore (.memory (change store) fault))

/-- Puts the files of a store back whatever has become of the operation. -/
def changeFile (s : Session) (change : FileStore → Except Error Unit × FileStore) :
    Reply × Session :=
  s.withFile fun store =>
    let (answer, store) := change store
    (.ofUnit answer, s.setStore (.file store))

/-- Changes the tree itself.  A change that fails is left undone, and no one is told. -/
def changeFiles (s : Session) (change : FileTree → FileTree) : Reply × Session :=
  s.withFile fun store => (.unit, s.setStore (.file { store with files := change store.files }))

def place (path : FilePath) (bytes : ByteArray) (files : FileTree) : FileTree :=
  let (_, files) := files.createDirectories path.parent
  match files.writeBytes path bytes with
  | .ok files => files
  | .error _ => files

def carryOut (s : Session) (procedure : Procedure Outcome) : Reply × Session :=
  let (id, s) := s.spawn procedure
  match s.result? id with
  | some result => (.ofResult result, s.forget id)
  | none => (.pending, s)

def flagOf (p : Procedure Bool) : Procedure Outcome := Outcome.flag <$> p

def unitOf (p : Procedure Unit) : Procedure Outcome := (fun _ => Outcome.unit) <$> p

def whitelistOf (role : Role) : Procedure Outcome :=
  Outcome.whitelist <$> Procedure.whitelistOf role

def spawnNamed (s : Session) (name : String) (procedure : Procedure Outcome) : Reply × Session :=
  let (id, s) := s.spawn procedure
  (.unit, { s with names := s.names.insert name id })

def join (s : Session) (name : String) : Reply × Session :=
  match s.names[name]? with
  | none => (.refused .noSuchTask, s)
  | some id =>
    match s.result? id with
    | some result => (.ofResult result, { s.forget id with names := s.names.erase name })
    | none => (.pending, s)

/-- A load past the cache meets the gate too, and has no one to wait for it there. -/
def loadDirectly (s : Session) (role : Role) : Reply × Session :=
  let (answer, store) := s.world.store.load role
  let s := s.setStore store
  let reply : Reply := match s.verdict role answer with
    | .ok w => .whitelist w
    | .error e => .error e
  match s.gate with
  | none => (reply, s)
  | some g =>
    if 0 < g.permits then (reply, { s with gate := some { g with permits := g.permits - 1 } })
    else (.pending, s)

def readDocument (s : Session) (raw : Bool) : Reply × Session :=
  s.withFile fun store =>
    match store.files.readText store.path with
    | .error _ => (.absent, s)
    | .ok text =>
      if raw then (.text text, s)
      else
        match Json.parse text with
        | .ok value => (.document value, s)
        | .error _ => (.unparsable, s)

/-- Opens the gate for all in line, puts another in its place and runs those who passed. -/
def setGate (s : Session) (gate : Option Gate) : Session :=
  let line := (s.gate.map (·.line)).getD []
  { s with gate, admitted := s.admitted ++ line, ready := s.ready ++ line }.settle

def releaseGate (s : Session) (n : Nat) : Session :=
  match s.gate with
  | none => s
  | some g =>
    let (passed, g) := g.release n
    { s with gate := some g, admitted := s.admitted ++ passed, ready := s.ready ++ passed }.settle

def perform (s : Session) : Command → Reply × Session
  | .grantRole grantee granted =>
    let s := s.setGraph (s.world.graph.grant grantee granted)
    (.unit, { s with roleGrants := s.roleGrants + 1 })
  | .revokeRole grantee granted =>
    let (held, graph) := s.world.graph.revoke grantee granted
    (.flag held, s.setGraph graph)
  | .rolesOf role =>
    match s.world.rolesOf role with
    | .ok roles => (.texts ((Std.ExtTreeSet.ofList roles).toList.map (·.name)), s)
    | .error e => (.error e, s)
  | .failRoles reason => (.unit, { s with world := { s.world with graphFault := reason } })
  | .grant role r ps =>
    match s.world.store with
    | .memory _ _ => s.changeMemory (·.grant role r ps)
    | .file _ => s.changeFile (·.grant role r ps)
  | .revoke role r ps => s.changeMemory (·.revoke role r ps)
  | .removeRole role => s.changeMemory (·.removeRole role)
  | .saveRole role w => s.changeFile (·.saveRole role w)
  | .load role => s.loadDirectly role
  | .loadCount => s.withMemory fun store _ => (.count store.loads, s)
  | .storeNames => (.texts [s.world.store.name, s.world.store.name], s)
  | .storeSetup =>
    let (answer, store) := s.world.store.setup
    (.ofUnit answer, s.setStore store)
  | .cacheSetup => s.carryOut (unitOf .prepareStore)
  | .pipelineSetup => s.carryOut (unitOf s.pipeline.setup)
  | .failLoad key error =>
    s.withMemory fun _ _ =>
      (.unit, { s with refusals := s.refusals.alter key fun _ => error })
  | .failSetup error => s.withMemory fun store _ => (.unit, s.setStore (.memory store error))
  | .writeDocument bytes =>
    s.withFile fun store =>
      (.unit, s.setStore (.file { store with files := place store.path bytes store.files }))
  | .readDocument raw => s.readDocument raw
  | .removeDocument =>
    s.withFile fun store =>
      match store.files.remove store.path with
      | .ok files => (.unit, s.setStore (.file { store with files }))
      | .error _ => (.unit, s)
  | .makeDirectory path => s.changeFiles fun files => (files.createDirectories path).2
  | .touch path => s.changeFiles (place path ByteArray.empty)
  | .listFiles path =>
    s.withFile fun store =>
      match store.files.names path with
      | .ok names => (.texts names, s)
      | .error _ => (.texts [], s)
  | .cacheGet role => s.carryOut (whitelistOf role)
  | .isCached role => (.flag (s.world.cache.isResident role), s)
  | .invalidate scope => s.carryOut (unitOf (.invalidate scope))
  | .entryCount => (.count s.world.cache.size, s)
  | .gate closed =>
    s.withMemory fun _ _ => (.unit, s.setGate (if closed then some Gate.closed else none))
  | .release n => s.withMemory fun _ _ => (.unit, s.releaseGate n)
  | .spawnGet name role => s.spawnNamed name (whitelistOf role)
  | .spawnAudit name record => s.spawnNamed name (flagOf (s.pipeline.audit record))
  | .join name => s.join name
  | .audit record => s.carryOut (flagOf (s.pipeline.audit record))
  | .isFiltered record => s.carryOut (flagOf (s.pipeline.filter.isFiltered record))
  | .decide record =>
    match s.carryOut (flagOf (Decision.decide record)) with
    | (.flag filtered, s) => (.decision filtered s.world.store.name, s)
    | other => other
  | .append line =>
    match s.world.sink.append line with
    | .ok sink => (.unit, { s with world := { s.world with sink } })
    | .error e => (.error e, s)
  | .lines => (.texts s.world.sink.lines, s)

end AuditTrail.Session
